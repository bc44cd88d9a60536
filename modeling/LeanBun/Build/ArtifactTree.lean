/-
The digest of a built artifact tree.

`project_artifact_sha256_v1` lists every path below the root, sorts the paths and feeds the
hasher, path by path, with the path, the kind and for a file the executable bits, the size
and the contents. Nothing says how many paths there are, and the contents stand there as they
are; yet the bytes can be read in one way only, since a path tells its length and a file its
size.

Names are UTF-8 here, and nobody changes the tree while it is hashed.
-/
import LeanBun.Build.ImageStore
import LeanBun.Store.Directory
import LeanBun.Store.TreeBytes

set_option autoImplicit false

namespace LeanBun.Build

open LeanBun.Lib LeanBun.Core LeanBun.Store

/-! ## Hashing -/

def MAX_BUILD_ARTIFACT_FILE_BYTES_V1 : ℕ := 1024 * 1024 * 1024
def MAX_BUILD_ARTIFACT_TREE_BYTES_V1 : ℕ := 16 * 1024 * 1024 * 1024
def MAX_BUILD_ARTIFACT_ENTRIES_V1 : ℕ := 500000

def artifact_error (message : String) : Images.BuildError :=
  ⟨Images.BuildErrorKind.ArtifactDrift, message⟩

def entry_count_exceeded : Images.BuildError :=
  artifact_error "project artifact entry count exceeds limit"

def not_regular (relative : Str) : Images.BuildError :=
  artifact_error ("project artifact is a symlink or special file: " ++ String.ofList relative)

/-- A directory or a regular file. -/
def Node.is_regular : Node → Bool
  | .Directory => true
  | .File _ _ => true
  | .Symlink => false
  | .Special => false

/-- One round of `collect_artifact_entries`. -/
def collect_artifact_entry (entries : List Str) (entry : List Str × Node) :
    Except Images.BuildError (List Str) := do
  let relative := portable_relative_path entry.1
  let _ ← ensure (entries.length + 1 ≤ MAX_BUILD_ARTIFACT_ENTRIES_V1) entry_count_exceeded
  let _ ← ensure (Node.is_regular entry.2 = true) (not_regular relative)
  return entries ++ [relative]

/-- `collect_artifact_entries`, over everything below the root. -/
def collect_artifact_entries (tree : Tree) : Except Images.BuildError (List Str) :=
  tree.foldlM collect_artifact_entry []

/-- `hash_artifact_text`. -/
def hash_artifact_text (value : Str) : List UInt8 := string_bytes value

/-- `metadata.permissions().mode() & 0o111`. -/
def executable_bits (mode : ℕ) : ℕ := mode &&& 0o111

/-- What the hasher has been fed with, and `total_bytes`. -/
structure ArtifactHash where
  total_bytes : ℕ
  fed : List UInt8

/-- What lies under a relative path. -/
def inspect_artifact (tree : Tree) (relative : Str) : Option Node :=
  (tree.find? fun entry => decide (portable_relative_path entry.1 = relative)).map Prod.snd

/-- One round of the loop of `project_artifact_sha256_v1`. -/
def hash_artifact (tree : Tree) (state : ArtifactHash) (relative : Str) :
    Except Images.BuildError ArtifactHash :=
  match inspect_artifact tree relative with
  | none => .error (artifact_error ("cannot inspect artifact " ++ String.ofList relative))
  | some .Directory =>
    .ok ⟨state.total_bytes, state.fed ++ (hash_artifact_text relative ++ [1])⟩
  | some (.File mode contents) => do
    let _ ← ensure (contents.length ≤ MAX_BUILD_ARTIFACT_FILE_BYTES_V1)
      (artifact_error ("project artifact file exceeds limit: " ++ String.ofList relative))
    let _ ← ensure (state.total_bytes + contents.length < 2 ^ 64)
      (artifact_error "project artifact byte count overflow")
    let _ ← ensure (state.total_bytes + contents.length ≤ MAX_BUILD_ARTIFACT_TREE_BYTES_V1)
      (artifact_error "project artifact tree exceeds byte limit")
    return ⟨state.total_bytes + contents.length, state.fed ++ (hash_artifact_text relative ++
      (2 :: (be32 (executable_bits mode) ++ (be64 contents.length ++ contents))))⟩
  | some _ => .error (not_regular relative)

/-- What `project_artifact_sha256_v1` feeds to the hasher. -/
def project_artifact_bytes (root : Option Tree) : Except Images.BuildError (List UInt8) :=
  match root with
  | none => .error (artifact_error "project artifact root is not a directory")
  | some tree => do
    let entries ← collect_artifact_entries tree
    let entries := sort_by_key path_key entries
    let _ ← ensure (entries.length ≤ MAX_BUILD_ARTIFACT_ENTRIES_V1) entry_count_exceeded
    let state ← entries.foldlM (hash_artifact tree)
      ⟨0, as_bytes "leanbun-build-artifact-tree-v1\x00".toList⟩
    return state.fed

/-- `project_artifact_sha256_v1`. -/
def project_artifact_sha256_v1 (root : Option Tree) : Except Images.BuildError Sha256 :=
  (project_artifact_bytes root).map digest

/-! ## The entries of an artifact tree -/

/-- What the digest binds of a path. -/
inductive ArtifactEntry where
  | Directory (path : Str)
  | File (path : Str) (executable : ℕ) (contents : List UInt8)
deriving DecidableEq

def ArtifactEntry.path : ArtifactEntry → Str
  | .Directory path => path
  | .File path _ _ => path

/-- What is fed for one entry. -/
def artifact_entry_bytes : ArtifactEntry → List UInt8
  | .Directory path => string_bytes path ++ [1]
  | .File path executable contents => string_bytes path ++
      (2 :: (be32 executable ++ (be64 contents.length ++ contents)))

/-- The entry has a path and contents that fit into memory. -/
def ArtifactEntry.Small : ArtifactEntry → Prop
  | .Directory path => ShortText path
  | .File path executable contents =>
    ShortText path ∧ executable < 2 ^ 32 ∧ contents.length < 2 ^ 64

/-- Contents after their length can be cut off in one way only. -/
theorem contents_delimited : Delimited (fun contents : List UInt8 => contents.length < 2 ^ 64)
    fun contents => be64 contents.length ++ contents :=
  Delimited.prefixed List.length id be64_delimited (fun _ h => h) (fun _ _ h => h) fun _ _ _ _ h => h

theorem artifact_entry_delimited : Delimited ArtifactEntry.Small artifact_entry_bytes := by
  intro entry entry' r s hsmall hsmall' h
  cases entry with
  | Directory path =>
    cases entry' with
    | Directory path' =>
      simp only [artifact_entry_bytes, List.append_assoc, List.cons_append, List.nil_append] at h
      obtain ⟨hpaths, hrest⟩ := string_bytes_delimited _ _ _ _ hsmall hsmall' h
      exact ⟨congrArg _ hpaths, (List.cons.inj hrest).2⟩
    | File path' executable' contents' =>
      simp only [artifact_entry_bytes, List.append_assoc, List.cons_append, List.nil_append] at h
      obtain ⟨-, h⟩ := string_bytes_delimited _ _ _ _ hsmall hsmall'.1 h
      exact absurd (List.cons.inj h).1 (by decide)
  | File path executable contents =>
    obtain ⟨hpath, hexecutable, hcontents⟩ := hsmall
    cases entry' with
    | Directory path' =>
      simp only [artifact_entry_bytes, List.append_assoc, List.cons_append, List.nil_append] at h
      obtain ⟨-, h⟩ := string_bytes_delimited _ _ _ _ hpath hsmall' h
      exact absurd (List.cons.inj h).1 (by decide)
    | File path' executable' contents' =>
      obtain ⟨hpath', hexecutable', hcontents'⟩ := hsmall'
      simp only [artifact_entry_bytes, List.append_assoc, List.cons_append] at h
      obtain ⟨hpaths, h⟩ := string_bytes_delimited _ _ _ _ hpath hpath' h
      obtain ⟨-, h⟩ := List.cons.inj h
      obtain ⟨hbits, h⟩ := be32_delimited _ _ _ _ hexecutable hexecutable' h
      rw [← List.append_assoc, ← List.append_assoc] at h
      obtain ⟨hbytes, hrest⟩ := contents_delimited _ _ _ _ hcontents hcontents' h
      exact ⟨by rw [hpaths, hbits, hbytes], hrest⟩

theorem artifact_entry_bytes_ne_nil (entry : ArtifactEntry) : artifact_entry_bytes entry ≠ [] := by
  cases entry <;> simp [artifact_entry_bytes]

/-- **Read in one way.** No other list of entries is encoded by the same bytes. -/
theorem artifact_entries_injective {entries entries' : List ArtifactEntry}
    (hsmall : ∀ entry ∈ entries, entry.Small) (hsmall' : ∀ entry ∈ entries', entry.Small)
    (h : entries.flatMap artifact_entry_bytes = entries'.flatMap artifact_entry_bytes) :
    entries = entries' :=
  artifact_entry_delimited.flatMap_end (fun entry _ => artifact_entry_bytes_ne_nil entry)
    hsmall hsmall' h

/-! ## What a digest is taken of -/

/-- The listing of an artifact tree, whose paths fit into memory. -/
structure ArtifactTree where
  tree : Tree
  listing : tree.Listing
  short : ∀ entry ∈ tree, ShortText (portable_relative_path entry.1)

/-- The entry of a listed path. -/
def artifact_entry (entry : List Str × Node) : Option ArtifactEntry :=
  match entry.2 with
  | .Directory => some (.Directory (portable_relative_path entry.1))
  | .File mode contents =>
    some (.File (portable_relative_path entry.1) (executable_bits mode) contents)
  | .Symlink => none
  | .Special => none

/-- The entries of a tree, in the order of their paths. -/
def artifact_entries (tree : Tree) : List ArtifactEntry :=
  sort_by_key (fun entry => path_key entry.path) (tree.filterMap artifact_entry)

theorem artifact_entry_path {entry : List Str × Node} {artifact : ArtifactEntry}
    (h : artifact_entry entry = some artifact) :
    artifact.path = portable_relative_path entry.1 := by
  unfold artifact_entry at h
  split at h
  · rw [← Option.some.inj h]
    rfl
  · rw [← Option.some.inj h]
    rfl
  · exact absurd h (by simp)
  · exact absurd h (by simp)

theorem artifact_entry_regular {entry : List Str × Node} (h : Node.is_regular entry.2 = true) :
    ∃ artifact, artifact_entry entry = some artifact := by
  unfold artifact_entry
  cases hnode : entry.2 with
  | Directory => exact ⟨_, rfl⟩
  | File mode contents => exact ⟨_, rfl⟩
  | Symlink =>
    rw [hnode] at h
    exact absurd h (by simp [Node.is_regular])
  | Special =>
    rw [hnode] at h
    exact absurd h (by simp [Node.is_regular])

/-- Collecting lists every path, if all of them are regular. -/
theorem collect_artifact_entries_eq_ok {tree : Tree} {entries : List Str}
    (h : collect_artifact_entries tree = .ok entries) :
    entries = tree.map (fun entry => portable_relative_path entry.1) ∧
      ∀ entry ∈ tree, Node.is_regular entry.2 = true := by
  refine foldlM_invariant (fun pre entries => entries = pre.map
    (fun entry => portable_relative_path entry.1) ∧ ∀ entry ∈ pre, Node.is_regular entry.2 = true)
    ?_ ⟨rfl, by simp⟩ h
  rintro pre entry collected collected' - ⟨rfl, hpre⟩ hround
  unfold collect_artifact_entry at hround
  obtain ⟨-, -, hround⟩ := bind_eq_ok.mp hround
  obtain ⟨hregular, -, hround⟩ := bind_eq_ok.mp hround
  refine ⟨?_, ?_⟩
  · rw [← Except.ok.inj hround, List.map_append]
    rfl
  · intro other hother
    rw [List.mem_append, List.mem_singleton] at hother
    obtain hother | rfl := hother
    · exact hpre other hother
    · exact hregular.down

/-- The paths of the entries are the listed ones. -/
theorem filterMap_artifact_entry_paths {tree : Tree}
    (h : ∀ entry ∈ tree, Node.is_regular entry.2 = true) :
    (tree.filterMap artifact_entry).map ArtifactEntry.path =
      tree.map fun entry => portable_relative_path entry.1 := by
  induction tree with
  | nil => rfl
  | cons entry tree ih =>
    obtain ⟨artifact, hartifact⟩ := artifact_entry_regular (h entry List.mem_cons_self)
    rw [List.filterMap_cons, hartifact, List.map_cons, List.map_cons,
      artifact_entry_path hartifact, ih fun other hother => h other (List.mem_cons_of_mem _ hother)]

/-- The sorted paths are those of the sorted entries. -/
theorem sorted_artifact_paths {tree : Tree} (h : ∀ entry ∈ tree, Node.is_regular entry.2 = true) :
    sort_by_key path_key (tree.map fun entry => portable_relative_path entry.1) =
      (artifact_entries tree).map ArtifactEntry.path := by
  have hperm : (tree.map fun entry => portable_relative_path entry.1).Perm
      ((artifact_entries tree).map ArtifactEntry.path) := by
    rw [← filterMap_artifact_entry_paths h]
    exact ((sort_by_key_perm _ _).map _).symm
  have hsorted : ((artifact_entries tree).map ArtifactEntry.path).Pairwise
      fun a b => path_key a ≤ path_key b :=
    List.pairwise_map.mpr (sort_by_key_sorted _ _)
  rw [sort_by_key_perm_eq_of_injective path_key hperm path_key_injective,
    sort_by_key_eq_self path_key hsorted]

/-- What lies under the path of an entry. -/
theorem inspect_listed {tree : Tree} (hlisting : tree.Listing) {entry : List Str × Node}
    (hentry : entry ∈ tree) : inspect_artifact tree (portable_relative_path entry.1) = some entry.2 := by
  unfold inspect_artifact
  rw [find_key_of_mem hlisting.portable_nodup hentry]
  rfl

/-- **One round** feeds the bytes of the entry. -/
theorem hash_artifact_eq_ok {artifact : ArtifactTree} {entry : List Str × Node}
    (hentry : entry ∈ artifact.tree) {hashed : ArtifactEntry}
    (hhashed : artifact_entry entry = some hashed) {state state' : ArtifactHash}
    (h : hash_artifact artifact.tree state hashed.path = .ok state') :
    state'.fed = state.fed ++ artifact_entry_bytes hashed ∧ hashed.Small := by
  have hshort := artifact.short entry hentry
  rw [artifact_entry_path hhashed] at h
  unfold hash_artifact at h
  rw [inspect_listed artifact.listing hentry] at h
  unfold artifact_entry at hhashed
  cases hnode : entry.2 with
  | Directory =>
    rw [hnode] at h hhashed
    rw [← Option.some.inj hhashed, ← Except.ok.inj h]
    exact ⟨rfl, hshort⟩
  | File mode contents =>
    rw [hnode] at h hhashed
    obtain ⟨hfile, -, h⟩ := bind_eq_ok.mp h
    obtain ⟨hcount, -, h⟩ := bind_eq_ok.mp h
    obtain ⟨-, -, h⟩ := bind_eq_ok.mp h
    rw [← Option.some.inj hhashed, ← Except.ok.inj h]
    have hbits : executable_bits mode < 2 ^ 32 := by
      have hle : mode &&& 0o111 ≤ 0o111 := Nat.and_le_right
      unfold executable_bits
      omega
    have hcontents := hcount.down
    exact ⟨rfl, hshort, hbits, by omega⟩
  | Symlink =>
    rw [hnode] at hhashed
    exact absurd hhashed (by simp)
  | Special =>
    rw [hnode] at hhashed
    exact absurd hhashed (by simp)

/-- All rounds feed the bytes of all entries, one after another. -/
theorem hash_artifacts_eq_ok {artifact : ArtifactTree} {entries : List ArtifactEntry}
    (hentries : ∀ hashed ∈ entries, ∃ entry ∈ artifact.tree, artifact_entry entry = some hashed)
    {state state' : ArtifactHash}
    (h : (entries.map ArtifactEntry.path).foldlM (hash_artifact artifact.tree) state = .ok state') :
    state'.fed = state.fed ++ entries.flatMap artifact_entry_bytes ∧
      ∀ hashed ∈ entries, hashed.Small := by
  induction entries generalizing state with
  | nil =>
    rw [← Except.ok.inj h, List.flatMap_nil, List.append_nil]
    exact ⟨rfl, by simp⟩
  | cons hashed entries ih =>
    rw [List.map_cons, List.foldlM_cons] at h
    obtain ⟨next, hround, h⟩ := bind_eq_ok.mp h
    obtain ⟨entry, hentry, hhashed⟩ := hentries hashed List.mem_cons_self
    obtain ⟨hfed, hsmall⟩ := hash_artifact_eq_ok hentry hhashed hround
    obtain ⟨hrest, hall⟩ := ih (fun other hother => hentries other (List.mem_cons_of_mem _ hother)) h
    refine ⟨?_, ?_⟩
    · rw [hrest, hfed, List.flatMap_cons, List.append_assoc]
    · intro other hother
      obtain rfl | hother := List.mem_cons.mp hother
      · exact hsmall
      · exact hall other hother

/-- **What is fed** are the bytes of the entries in the order of their paths. -/
theorem project_artifact_bytes_eq_ok {artifact : ArtifactTree} {bytes : List UInt8}
    (h : project_artifact_bytes (some artifact.tree) = .ok bytes) :
    bytes = as_bytes "leanbun-build-artifact-tree-v1\x00".toList ++
        (artifact_entries artifact.tree).flatMap artifact_entry_bytes ∧
      ∀ entry ∈ artifact_entries artifact.tree, entry.Small := by
  unfold project_artifact_bytes at h
  dsimp only at h
  obtain ⟨collected, hcollected, h⟩ := bind_eq_ok.mp h
  obtain ⟨rfl, hregular⟩ := collect_artifact_entries_eq_ok hcollected
  rw [sorted_artifact_paths hregular] at h
  obtain ⟨-, -, h⟩ := bind_eq_ok.mp h
  obtain ⟨state, hstate, h⟩ := bind_eq_ok.mp h
  have hlisted : ∀ hashed ∈ artifact_entries artifact.tree,
      ∃ entry ∈ artifact.tree, artifact_entry entry = some hashed := by
    intro hashed hhashed
    unfold artifact_entries at hhashed
    rw [mem_sort_by_key, List.mem_filterMap] at hhashed
    exact hhashed
  obtain ⟨hfed, hsmall⟩ := hash_artifacts_eq_ok hlisted hstate
  rw [← Except.ok.inj h]
  exact ⟨hfed, hsmall⟩

/-- **Trees are bound.** The bytes of a source tree digest and of an object digest determine
the entries, and the bytes of an artifact digest determine every path, kind, executable bit
and content of the artifact tree. -/
theorem tree_preimages_injective :
    (∀ tree tree' : NormalizedEntries, tree_bytes tree.entries = tree_bytes tree'.entries →
      tree.entries = tree'.entries) ∧
    (∀ tree tree' : NormalizedEntries,
      encode_public_metadata tree.entries = encode_public_metadata tree'.entries →
        tree.entries = tree'.entries) ∧
    ∀ (artifact artifact' : ArtifactTree) (bytes : List UInt8),
      project_artifact_bytes (some artifact.tree) = .ok bytes →
        project_artifact_bytes (some artifact'.tree) = .ok bytes →
          artifact_entries artifact.tree = artifact_entries artifact'.tree := by
  refine ⟨fun _ _ => NormalizedEntries.tree_bytes_injective,
    fun _ _ => encode_public_metadata_injective, ?_⟩
  intro artifact artifact' bytes h h'
  obtain ⟨hbytes, hsmall⟩ := project_artifact_bytes_eq_ok h
  obtain ⟨hbytes', hsmall'⟩ := project_artifact_bytes_eq_ok h'
  exact artifact_entries_injective hsmall hsmall'
    (List.append_cancel_left (hbytes.symm.trans hbytes'))

end LeanBun.Build
