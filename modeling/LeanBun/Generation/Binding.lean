/-
What the identity of a generation binds.

The bytes that `generation_identity` feeds to the hasher can be cut into their
fields in only one way: every text carries its length, every digest is 32 bytes
and the packages are counted. So the bytes determine the transaction, the project,
the place, the digests and the facts of every package.
-/
import LeanBun.Generation.Record

set_option autoImplicit false

namespace LeanBun.Generation

open LeanBun.Lib LeanBun.Core LeanBun.Store

/-! ## Short texts -/

theorem byte_len_path_join (path child : PathBuf) :
    byte_len (path_join path child) ≤ byte_len path + 1 + byte_len child := by
  have hslash : byte_len ('/' :: child) = 1 + byte_len child := by
    show byte_len (['/'] ++ child) = _
    rw [byte_len_append]
    rfl
  unfold path_join
  by_cases hhead : child.head? = some '/'
  · rw [if_pos hhead]
    omega
  · rw [if_neg hhead]
    by_cases hlast : path.getLast? = some '/'
    · rw [if_pos hlast, byte_len_append]
      omega
    · rw [if_neg hlast, byte_len_append, hslash]
      omega

theorem generation_root_bytes (g : LeanBunGenerationV1) : byte_len g.generation_root ≤ MAX_PATH_BYTES := by
  have hroot := g.generation_root_valid
  unfold valid_absolute_path at hroot
  simp only [Bool.and_eq_true, decide_eq_true_eq] at hroot
  exact hroot.2

/-- The texts of a package are short. -/
theorem package_texts_short {g : LeanBunGenerationV1} {package : GenerationPackageV1}
    (h : package ∈ g.packages) : ShortText package.key_scope ∧ ShortText package.key_name ∧
      ShortText package.final_path := by
  obtain ⟨hscope, hname⟩ := g.keys_valid package h
  have hscope := Lock.valid_atom_length hscope
  have hname := Lock.valid_atom_length hname
  have hroot := generation_root_bytes g
  have hpackages : byte_len "packages".toList = 8 := by decide
  have hpath : byte_len package.final_path ≤ 10000 := by
    rw [g.paths_canonical package h]
    unfold package_path
    have h1 := byte_len_path_join g.generation_root "packages".toList
    have h2 := byte_len_path_join (path_join g.generation_root "packages".toList) package.key_scope
    have h3 := byte_len_path_join (path_join g.generation_root "packages".toList) package.key_name
    have h4 := byte_len_path_join (path_join (path_join g.generation_root "packages".toList)
      package.key_scope) package.key_name
    simp only [Lock.MAX_NAME_BYTES, MAX_PATH_BYTES] at hscope hname hroot
    by_cases hempty : package.key_scope = []
    · rw [if_pos hempty]
      omega
    · rw [if_neg hempty]
      omega
  simp only [ShortText, Lock.MAX_NAME_BYTES] at hscope hname ⊢
  exact ⟨by omega, by omega, by omega⟩

/-! ## Cutting the bytes -/

/-- What the identity says of a package. -/
structure PackageFacts where
  scope : Str
  name : Str
  final_path : PathBuf
  store_object_sha256 : Sha256
  source_tree_sha256 : Sha256
deriving DecidableEq

def GenerationPackageV1.facts (package : GenerationPackageV1) : PackageFacts :=
  ⟨package.key_scope, package.key_name, package.final_path, package.store_object_sha256,
    package.source_tree_sha256⟩

/-- The bytes of a package, from its facts. -/
def PackageFacts.bytes (facts : PackageFacts) : List UInt8 :=
  string_bytes facts.scope ++ (string_bytes facts.name ++ (string_bytes facts.final_path ++
    (facts.store_object_sha256.bytes ++ facts.source_tree_sha256.bytes)))

theorem generation_package_bytes_eq (package : GenerationPackageV1) :
    generation_package_bytes package = package.facts.bytes := rfl

theorem package_facts_delimited : Delimited
    (fun facts => ShortText facts.scope ∧ ShortText facts.name ∧ ShortText facts.final_path)
    PackageFacts.bytes := by
  rintro a b r s ⟨hscope, hname, hpath⟩ ⟨hscope', hname', hpath'⟩ h
  simp only [PackageFacts.bytes, List.append_assoc] at h
  obtain ⟨hscopes, h⟩ := string_bytes_delimited _ _ _ _ hscope hscope' h
  obtain ⟨hnames, h⟩ := string_bytes_delimited _ _ _ _ hname hname' h
  obtain ⟨hpaths, h⟩ := string_bytes_delimited _ _ _ _ hpath hpath' h
  obtain ⟨hobjects, h⟩ := sha_bytes_delimited _ _ _ _ trivial trivial h
  obtain ⟨htrees, h⟩ := sha_bytes_delimited _ _ _ _ trivial trivial h
  refine ⟨?_, h⟩
  cases a
  cases b
  simp only [PackageFacts.mk.injEq]
  exact ⟨hscopes, hnames, hpaths, hobjects, htrees⟩

theorem transaction_delimited : Delimited (fun _ => True) fun t : ExecutionId => as_bytes t.as_str := by
  have hlength : ∀ t : ExecutionId, (as_bytes t.as_str).length = 36 := by
    intro t
    refine (byte_len_ascii fun c hc => ?_).trans t.length
    rcases t.chars c hc with rfl | h
    · decide
    · simp only [is_lower_hex, decide_eq_true_eq, Char.le_def, UInt32.le_iff_toNat_le] at h
      have hcode : c.toNat = c.val.toNat := rfl
      have hnine : ('9' : Char).val.toNat = 57 := rfl
      have hf : ('f' : Char).val.toNat = 102 := rfl
      omega
  exact Delimited.of_length (fun t _ => hlength t) fun _ _ _ _ h => ExecutionId.ext (as_bytes_injective h)

/-- **What the identity binds.** Two generations whose identities are taken of the
same bytes agree in their transaction, project, place, digests and in the facts of
all their packages. -/
theorem identity_bytes_bind {a b : LeanBunGenerationV1}
    (h : generation_identity_bytes a = generation_identity_bytes b) :
    a.transaction_id = b.transaction_id ∧ a.project_id = b.project_id ∧
      a.generation_root = b.generation_root ∧ a.lock_sha256 = b.lock_sha256 ∧
      a.graph_sha256 = b.graph_sha256 ∧ a.decision_set_sha256 = b.decision_set_sha256 ∧
      a.manifest_projection_sha256 = b.manifest_projection_sha256 ∧
      a.runtime_projection_sha256 = b.runtime_projection_sha256 ∧
      a.reservoir_bindings_sha256 = b.reservoir_bindings_sha256 ∧
      a.packages.map GenerationPackageV1.facts = b.packages.map GenerationPackageV1.facts := by
  have hroot : ∀ g : LeanBunGenerationV1, ShortText g.generation_root := by
    intro g
    have hlen := generation_root_bytes g
    simp only [ShortText, MAX_PATH_BYTES] at hlen ⊢
    omega
  have hcount : ∀ g : LeanBunGenerationV1, g.packages.length < 2 ^ 64 := by
    intro g
    have hlen := g.count_bounded
    unfold MAX_GENERATION_PACKAGES_V1 at hlen
    omega
  have hfacts : ∀ g : LeanBunGenerationV1, g.packages.flatMap generation_package_bytes =
      (g.packages.map GenerationPackageV1.facts).flatMap PackageFacts.bytes := by
    intro g
    rw [List.flatMap_map]
    rfl
  have hshort : ∀ g : LeanBunGenerationV1, ∀ facts ∈ g.packages.map GenerationPackageV1.facts,
      ShortText facts.scope ∧ ShortText facts.name ∧ ShortText facts.final_path := by
    intro g facts hmem
    obtain ⟨package, hpackage, rfl⟩ := List.mem_map.mp hmem
    exact package_texts_short hpackage
  unfold generation_identity_bytes at h
  -- the header is as long in both schemas
  have hone : (as_bytes "leanbun-generation-identity-v1\x00".toList).length = 31 := by decide
  have htwo : (as_bytes "leanbun-generation-identity-v2\x00".toList).length = 31 := by decide
  have hversions : as_bytes "leanbun-generation-identity-v2\x00".toList ≠
      as_bytes "leanbun-generation-identity-v1\x00".toList := by decide
  obtain ⟨hversion, h⟩ := List.append_inj h (by
    cases a.reservoir_bindings_sha256 <;> cases b.reservoir_bindings_sha256 <;>
      simp only [hone, htwo])
  obtain ⟨htransaction, h⟩ := transaction_delimited _ _ _ _ trivial trivial h
  obtain ⟨hproject, h⟩ := sha_bytes_delimited _ _ _ _ trivial trivial h
  obtain ⟨hroots, h⟩ := string_bytes_delimited _ _ _ _ (hroot a) (hroot b) h
  obtain ⟨hlock, h⟩ := sha_bytes_delimited _ _ _ _ trivial trivial h
  obtain ⟨hgraph, h⟩ := sha_bytes_delimited _ _ _ _ trivial trivial h
  obtain ⟨hdecisions, h⟩ := sha_bytes_delimited _ _ _ _ trivial trivial h
  obtain ⟨hmanifest, h⟩ := sha_bytes_delimited _ _ _ _ trivial trivial h
  obtain ⟨hruntime, h⟩ := sha_bytes_delimited _ _ _ _ trivial trivial h
  have hrest : a.reservoir_bindings_sha256 = b.reservoir_bindings_sha256 ∧
      be64 a.packages.length ++ a.packages.flatMap generation_package_bytes =
        be64 b.packages.length ++ b.packages.flatMap generation_package_bytes := by
    cases ha : a.reservoir_bindings_sha256 with
    | none =>
      cases hb : b.reservoir_bindings_sha256 with
      | none =>
        rw [ha, hb] at h
        exact ⟨rfl, h⟩
      | some _ =>
        rw [ha, hb] at hversion
        exact absurd hversion.symm hversions
    | some mine =>
      cases hb : b.reservoir_bindings_sha256 with
      | none =>
        rw [ha, hb] at hversion
        exact absurd hversion hversions
      | some other =>
        rw [ha, hb] at h
        obtain ⟨hsame, h⟩ := sha_bytes_delimited _ _ _ _ trivial trivial h
        exact ⟨congrArg some hsame, h⟩
  obtain ⟨hreservoir, h⟩ := hrest
  obtain ⟨hlength, h⟩ := be64_delimited _ _ _ _ (hcount a) (hcount b) h
  rw [hfacts, hfacts, ← List.append_nil (List.flatMap _ _),
    ← List.append_nil ((b.packages.map GenerationPackageV1.facts).flatMap _)] at h
  obtain ⟨hpackages, -⟩ := package_facts_delimited.flatMap
    (by rw [List.length_map, List.length_map, hlength]) (hshort a) (hshort b) h
  refine ⟨htransaction, ?_, hroots, hlock, hgraph, hdecisions, hmanifest, hruntime, hreservoir,
    hpackages⟩
  generalize a.project_id = p at hproject
  generalize b.project_id = q at hproject
  cases p
  cases q
  exact congrArg ProjectId.mk hproject

end LeanBun.Generation
