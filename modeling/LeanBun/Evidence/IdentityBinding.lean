/-
The identity binds every field of the input, and an input that was read has an identity.

A field is a constant key and a delimited value, so two materials with the same bytes have the
same values one after the other. The values that may be absent are told by the state and the
kind, which stand in front of them.
-/
import LeanBun.Evidence.ProjectIdentity

set_option autoImplicit false

namespace LeanBun.Evidence

open LeanBun.Lib LeanBun.Core LeanBun.Codec LeanBun.Plan

/-! ## The bytes that are written -/

/-- A value with its length in front. -/
def blob_bytes (value : List UInt8) : List UInt8 := be64 value.length ++ value

/-- A field: the key with its length, and the value. -/
def field_bytes (key : String) (value : List UInt8) : List UInt8 :=
  be_bytes 2 (as_bytes key.toList).length ++ as_bytes key.toList ++ blob_bytes value

/-- The record of a package. -/
def record_bytes (package : ProjectInputIdentityPackage) : List UInt8 :=
  blob_bytes (as_bytes package.name) ++ kind_byte package.kind ::
    (blob_bytes (as_bytes (package.revision.getD [])) ++
      blob_bytes (as_bytes (package.path.getD [])))

/-- The packages in the order of their names. -/
def packages_bytes (packages : List ProjectInputIdentityPackage) : List UInt8 :=
  (sort_by_key name_order packages).flatMap fun package =>
    field_bytes "package" (record_bytes package)

/-- The bytes of a material. -/
def material_bytes (material : ProjectInputIdentityMaterial) : List UInt8 :=
  HEADER ++ (field_bytes "projectPath" (as_bytes material.project_path) ++
    (field_bytes "state" (as_bytes (state_name material.state)) ++
    (field_bytes "toolchain" (as_bytes material.toolchain) ++
    (field_bytes "toolchainSha256" material.toolchain_sha256.bytes ++
    (field_bytes "manifestSha256" material.manifest_sha256.bytes ++
    (field_bytes "overrideSha256" (optional_digest material.override_sha256) ++
    (field_bytes "providerRegistrySha256" (optional_digest material.provider_registry_sha256) ++
    (field_bytes "providerOverrideSha256" (optional_digest material.provider_override_sha256) ++
    (field_bytes "packageCount" (be64 material.packages.length) ++
      packages_bytes material.packages)))))))))

/-- A value whose length can be written. -/
def Encodable (value : List UInt8) : Prop := value.length < 2 ^ 64

/-- The values of a package have lengths that can be written. -/
structure PackageEncodable (package : ProjectInputIdentityPackage) : Prop where
  name : Encodable (as_bytes package.name)
  revision : Encodable (as_bytes (package.revision.getD []))
  path : Encodable (as_bytes (package.path.getD []))
  record : Encodable (record_bytes package)

/-- The values of a material have lengths that can be written. -/
structure MaterialEncodable (material : ProjectInputIdentityMaterial) : Prop where
  project_path : Encodable (as_bytes material.project_path)
  toolchain : Encodable (as_bytes material.toolchain)
  count : material.packages.length < 2 ^ 64
  packages : ∀ package ∈ material.packages, PackageEncodable package

theorem push_blob_eq_ok {output value written : List UInt8} :
    push_blob output value = .ok written ↔
      Encodable value ∧ written = output ++ blob_bytes value := by
  constructor
  · intro h
    obtain ⟨hlength, -, h⟩ := bind_eq_ok.mp h
    cases h
    exact ⟨hlength.down, List.append_assoc _ _ _⟩
  · rintro ⟨hlength, rfl⟩
    unfold push_blob
    rw [ensure_ok (show value.length < 2 ^ 64 from hlength)]
    exact congrArg Except.ok (List.append_assoc _ _ _)

/-- A key that fits its length. -/
def KeyFits (key : String) : Prop := (as_bytes key.toList).length < 2 ^ 16

theorem push_field_eq_ok {output value written : List UInt8} {key : String} (hkey : KeyFits key) :
    push_field output key value = .ok written ↔
      Encodable value ∧ written = output ++ field_bytes key value := by
  unfold push_field
  dsimp only
  rw [ensure_ok (show (as_bytes key.toList).length < 2 ^ 16 from hkey)]
  refine push_blob_eq_ok.trans (and_congr_right fun _ => ?_)
  unfold field_bytes
  rw [List.append_assoc, List.append_assoc, List.append_assoc]

theorem key_fits_package : KeyFits "package" := by unfold KeyFits; decide

theorem push_package_eq_ok {output written : List UInt8} {package : ProjectInputIdentityPackage} :
    push_package output package = .ok written ↔
      PackageEncodable package ∧ written = output ++ field_bytes "package" (record_bytes package) := by
  -- the three blobs of the record, one after the other
  have hrecord : [] ++ blob_bytes (as_bytes package.name) ++ [kind_byte package.kind] ++
      blob_bytes (as_bytes (package.revision.getD [])) ++
      blob_bytes (as_bytes (package.path.getD [])) = record_bytes package := by
    unfold record_bytes
    simp only [List.nil_append, List.append_assoc, List.cons_append]
  constructor
  · intro h
    obtain ⟨_, h1, h⟩ := bind_eq_ok.mp h
    obtain ⟨hname, rfl⟩ := push_blob_eq_ok.mp h1
    obtain ⟨_, h2, h⟩ := bind_eq_ok.mp h
    obtain ⟨hrevision, rfl⟩ := push_blob_eq_ok.mp h2
    obtain ⟨_, h3, h⟩ := bind_eq_ok.mp h
    obtain ⟨hpath, rfl⟩ := push_blob_eq_ok.mp h3
    rw [hrecord] at h
    obtain ⟨hencodable, hwritten⟩ := (push_field_eq_ok key_fits_package).mp h
    exact ⟨⟨hname, hrevision, hpath, hencodable⟩, hwritten⟩
  · rintro ⟨hencodable, hwritten⟩
    unfold push_package
    refine bind_eq_ok.mpr ⟨_, push_blob_eq_ok.mpr ⟨hencodable.name, rfl⟩, ?_⟩
    refine bind_eq_ok.mpr ⟨_, push_blob_eq_ok.mpr ⟨hencodable.revision, rfl⟩, ?_⟩
    refine bind_eq_ok.mpr ⟨_, push_blob_eq_ok.mpr ⟨hencodable.path, rfl⟩, ?_⟩
    rw [hrecord]
    exact (push_field_eq_ok key_fits_package).mpr ⟨hencodable.record, hwritten⟩

theorem push_packages_eq_ok {packages : List ProjectInputIdentityPackage}
    {output written : List UInt8} :
    packages.foldlM push_package output = .ok written ↔
      (∀ package ∈ packages, PackageEncodable package) ∧
        written = output ++ packages.flatMap fun package =>
          field_bytes "package" (record_bytes package) := by
  induction packages generalizing output with
  | nil =>
    rw [List.foldlM_nil, List.flatMap_nil, List.append_nil]
    constructor
    · intro h
      exact ⟨fun _ h => absurd h List.not_mem_nil, (Except.ok.inj h).symm⟩
    · rintro ⟨-, rfl⟩
      rfl
  | cons package packages ih =>
    rw [List.foldlM_cons, bind_eq_ok, List.flatMap_cons]
    constructor
    · rintro ⟨next, hpackage, hrest⟩
      obtain ⟨hencodable, rfl⟩ := push_package_eq_ok.mp hpackage
      obtain ⟨hall, hwritten⟩ := ih.mp hrest
      refine ⟨fun other hother => ?_, by rw [hwritten, List.append_assoc]⟩
      rcases List.mem_cons.mp hother with rfl | hother
      · exact hencodable
      · exact hall other hother
    · rintro ⟨hall, hwritten⟩
      refine ⟨_, push_package_eq_ok.mpr ⟨hall package List.mem_cons_self, rfl⟩, ih.mpr ⟨?_, ?_⟩⟩
      · exact fun other hother => hall other (List.mem_cons_of_mem _ hother)
      · rw [hwritten, List.append_assoc]

theorem encodable_digest (digest : Sha256) : Encodable digest.bytes := by
  unfold Encodable
  rw [digest.length_eq]
  decide

theorem encodable_optional_digest (digest : Option Sha256) : Encodable (optional_digest digest) := by
  rcases digest with _ | digest
  · exact Nat.two_pow_pos 64
  · exact encodable_digest digest

theorem encodable_state (state : ProjectInputState) : Encodable (as_bytes (state_name state)) := by
  unfold Encodable
  rcases state with _ | _ | _ <;> decide

theorem encodable_count (count : ℕ) : Encodable (be64 count) := by
  unfold Encodable
  have hlength : (be64 count).length = 8 := rfl
  omega

/-- **What the writer writes**: the bytes of a valid material whose values can be written. -/
theorem canonical_project_input_identity_eq_ok {material : ProjectInputIdentityMaterial}
    {identity : ProjectInputIdentityV1} :
    canonical_project_input_identity material = .ok identity ↔
      material.Valid ∧ MaterialEncodable material ∧
        identity = ⟨project_id material.project_path, digest (material_bytes material),
          material_bytes material⟩ := by
  have hkeys : KeyFits "projectPath" ∧ KeyFits "state" ∧ KeyFits "toolchain" ∧
      KeyFits "toolchainSha256" ∧ KeyFits "manifestSha256" ∧ KeyFits "overrideSha256" ∧
      KeyFits "providerRegistrySha256" ∧ KeyFits "providerOverrideSha256" ∧
      KeyFits "packageCount" := by
    unfold KeyFits
    decide
  obtain ⟨hk1, hk2, hk3, hk4, hk5, hk6, hk7, hk8, hk9⟩ := hkeys
  have hbytes : HEADER ++ field_bytes "projectPath" (as_bytes material.project_path) ++
      field_bytes "state" (as_bytes (state_name material.state)) ++
      field_bytes "toolchain" (as_bytes material.toolchain) ++
      field_bytes "toolchainSha256" material.toolchain_sha256.bytes ++
      field_bytes "manifestSha256" material.manifest_sha256.bytes ++
      field_bytes "overrideSha256" (optional_digest material.override_sha256) ++
      field_bytes "providerRegistrySha256" (optional_digest material.provider_registry_sha256) ++
      field_bytes "providerOverrideSha256" (optional_digest material.provider_override_sha256) ++
      field_bytes "packageCount" (be64 material.packages.length) ++
      packages_bytes material.packages = material_bytes material := by
    unfold material_bytes
    simp only [List.append_assoc]
  constructor
  · intro h
    obtain ⟨_, hvalid, h⟩ := bind_eq_ok.mp h
    obtain ⟨c1, h1, h⟩ := bind_eq_ok.mp h
    obtain ⟨hpath, rfl⟩ := (push_field_eq_ok hk1).mp h1
    obtain ⟨c2, h2, h⟩ := bind_eq_ok.mp h
    obtain ⟨-, rfl⟩ := (push_field_eq_ok hk2).mp h2
    obtain ⟨c3, h3, h⟩ := bind_eq_ok.mp h
    obtain ⟨htoolchain, rfl⟩ := (push_field_eq_ok hk3).mp h3
    obtain ⟨c4, h4, h⟩ := bind_eq_ok.mp h
    obtain ⟨-, rfl⟩ := (push_field_eq_ok hk4).mp h4
    obtain ⟨c5, h5, h⟩ := bind_eq_ok.mp h
    obtain ⟨-, rfl⟩ := (push_field_eq_ok hk5).mp h5
    obtain ⟨c6, h6, h⟩ := bind_eq_ok.mp h
    obtain ⟨-, rfl⟩ := (push_field_eq_ok hk6).mp h6
    obtain ⟨c7, h7, h⟩ := bind_eq_ok.mp h
    obtain ⟨-, rfl⟩ := (push_field_eq_ok hk7).mp h7
    obtain ⟨c8, h8, h⟩ := bind_eq_ok.mp h
    obtain ⟨-, rfl⟩ := (push_field_eq_ok hk8).mp h8
    obtain ⟨hcount, -, h⟩ := bind_eq_ok.mp h
    obtain ⟨c9, h9, h⟩ := bind_eq_ok.mp h
    obtain ⟨-, rfl⟩ := (push_field_eq_ok hk9).mp h9
    obtain ⟨c10, h10, h⟩ := bind_eq_ok.mp h
    obtain ⟨hpackages, rfl⟩ := push_packages_eq_ok.mp h10
    cases h
    refine ⟨validate_material_eq_ok.mp hvalid, ⟨hpath, htoolchain, hcount.down, ?_⟩, ?_⟩
    · exact fun package hpackage => hpackages package ((mem_sort_by_key _).mpr hpackage)
    · rw [← hbytes]
      rfl
  · rintro ⟨hvalid, hencodable, rfl⟩
    unfold canonical_project_input_identity
    refine bind_eq_ok.mpr ⟨_, validate_material_eq_ok.mpr hvalid, ?_⟩
    refine bind_eq_ok.mpr ⟨_, (push_field_eq_ok hk1).mpr ⟨hencodable.project_path, rfl⟩, ?_⟩
    refine bind_eq_ok.mpr ⟨_, (push_field_eq_ok hk2).mpr ⟨encodable_state _, rfl⟩, ?_⟩
    refine bind_eq_ok.mpr ⟨_, (push_field_eq_ok hk3).mpr ⟨hencodable.toolchain, rfl⟩, ?_⟩
    refine bind_eq_ok.mpr ⟨_, (push_field_eq_ok hk4).mpr ⟨encodable_digest _, rfl⟩, ?_⟩
    refine bind_eq_ok.mpr ⟨_, (push_field_eq_ok hk5).mpr ⟨encodable_digest _, rfl⟩, ?_⟩
    refine bind_eq_ok.mpr ⟨_, (push_field_eq_ok hk6).mpr ⟨encodable_optional_digest _, rfl⟩, ?_⟩
    refine bind_eq_ok.mpr ⟨_, (push_field_eq_ok hk7).mpr ⟨encodable_optional_digest _, rfl⟩, ?_⟩
    refine bind_eq_ok.mpr ⟨_, (push_field_eq_ok hk8).mpr ⟨encodable_optional_digest _, rfl⟩, ?_⟩
    refine bind_eq_ok.mpr ⟨_, ensure_ok hencodable.count _, ?_⟩
    refine bind_eq_ok.mpr ⟨_, (push_field_eq_ok hk9).mpr ⟨encodable_count _, rfl⟩, ?_⟩
    refine bind_eq_ok.mpr ⟨_, push_packages_eq_ok.mpr ⟨?_, rfl⟩, ?_⟩
    · exact fun package hpackage => hencodable.packages package ((mem_sort_by_key _).mp hpackage)
    · rw [← hbytes]
      rfl

/-! ## The bytes determine the material -/

theorem blob_bytes_delimited : Delimited Encodable blob_bytes :=
  Delimited.prefixed List.length id be64_delimited (fun _ h => h) (fun _ _ h => h)
    (fun _ _ _ _ h => h)

/-- Two fields of one key that stand in front of something have one value. -/
theorem field_bytes_cut {key : String} {value value' rest rest' : List UInt8}
    (hvalue : Encodable value) (hvalue' : Encodable value')
    (h : field_bytes key value ++ rest = field_bytes key value' ++ rest') :
    value = value' ∧ rest = rest' := by
  unfold field_bytes at h
  rw [List.append_assoc, List.append_assoc _ (blob_bytes value') rest'] at h
  exact blob_bytes_delimited _ _ _ _ hvalue hvalue' (List.append_cancel_left h)

theorem optional_digest_injective : Function.Injective optional_digest := by
  intro a b h
  have hlength := congrArg List.length h
  rcases a with _ | a <;> rcases b with _ | b
  · rfl
  · exact absurd (hlength.trans b.length_eq) (by simp [optional_digest])
  · exact absurd (hlength.symm.trans a.length_eq) (by simp [optional_digest])
  · exact congrArg some (Sha256.ext h)

theorem state_name_injective : Function.Injective state_name := by
  intro a b h
  rcases a with _ | _ | _ <;> rcases b with _ | _ | _ <;> first | rfl | exact absurd h (by decide)

theorem kind_byte_injective : Function.Injective kind_byte := by
  intro a b h
  rcases a with _ | _ <;> rcases b with _ | _ <;> first | rfl | exact absurd h (by decide)

/-- An optional text of which it is known whether it is there is told by its text. -/
theorem option_eq_of_getD {a b : Option Str} (hsome : a = none ↔ b = none)
    (h : a.getD [] = b.getD []) : a = b := by
  rcases a with _ | a <;> rcases b with _ | b
  · rfl
  · exact absurd (hsome.mp rfl) (Option.some_ne_none b)
  · exact absurd (hsome.mpr rfl) (Option.some_ne_none a)
  · exact congrArg some h

theorem ne_none_of_getD {a : Option Str} (h : a.getD [] ≠ []) : a ≠ none := by
  rintro rfl
  exact h rfl

/-- **Absent values.** In one state, valid packages of one kind have the same values absent. -/
theorem package_absent {state : ProjectInputState} {a b : ProjectInputIdentityPackage}
    (ha : PackageValid state a) (hb : PackageValid state b) (hkind : a.kind = b.kind) :
    (a.revision = none ↔ b.revision = none) ∧ (a.path = none ↔ b.path = none) := by
  unfold PackageValid at ha hb
  rw [hkind] at ha
  rcases hcase : b.kind with _ | _
  · simp only [hcase] at ha hb
    refine ⟨iff_of_false (ne_none_of_getD ha.1) (ne_none_of_getD hb.1), ?_⟩
    by_cases hstate : state = .ProviderBound
    · simp only [if_pos hstate] at ha hb
      exact iff_of_false (ne_none_of_getD ha.2) (ne_none_of_getD hb.2)
    · simp only [if_neg hstate] at ha hb
      exact iff_of_true ha.2 hb.2
  · simp only [hcase] at ha hb
    exact ⟨iff_of_true ha.2.1 hb.2.1,
      iff_of_false (ne_none_of_getD ha.2.2) (ne_none_of_getD hb.2.2)⟩

/-- A package that can be written and is valid in the state. -/
def PackageAccepted (state : ProjectInputState) (package : ProjectInputIdentityPackage) : Prop :=
  PackageValid state package ∧ PackageEncodable package

/-- **Records.** In one state the field of a package is cut off the front in one way. -/
theorem package_field_delimited (state : ProjectInputState) :
    Delimited (PackageAccepted state) fun package =>
      field_bytes "package" (record_bytes package) := by
  intro a b rest rest' ha hb h
  obtain ⟨hrecord, hrest⟩ := field_bytes_cut ha.2.record hb.2.record h
  unfold record_bytes at hrecord
  obtain ⟨hname, hrecord⟩ := blob_bytes_delimited _ _ _ _ ha.2.name hb.2.name hrecord
  rw [List.cons.injEq] at hrecord
  obtain ⟨hkind, hrecord⟩ := hrecord
  obtain ⟨hrevision, hpath⟩ := blob_bytes_delimited _ _ _ _ ha.2.revision hb.2.revision hrecord
  have hpath := blob_bytes_delimited.injective ha.2.path hb.2.path hpath
  have hkind := kind_byte_injective hkind
  obtain ⟨hrevision_absent, hpath_absent⟩ := package_absent ha.1 hb.1 hkind
  refine ⟨?_, hrest⟩
  rcases a with ⟨name, kind, revision, path⟩
  rcases b with ⟨name', kind', revision', path'⟩
  rw [ProjectInputIdentityPackage.mk.injEq]
  exact ⟨as_bytes_injective hname, hkind,
    option_eq_of_getD hrevision_absent (as_bytes_injective hrevision),
    option_eq_of_getD hpath_absent (as_bytes_injective hpath)⟩

/-- The same material up to the order of the packages. -/
structure SameUpToOrder (a b : ProjectInputIdentityMaterial) : Prop where
  project_path : a.project_path = b.project_path
  state : a.state = b.state
  toolchain : a.toolchain = b.toolchain
  toolchain_sha256 : a.toolchain_sha256 = b.toolchain_sha256
  manifest_sha256 : a.manifest_sha256 = b.manifest_sha256
  override_sha256 : a.override_sha256 = b.override_sha256
  provider_registry_sha256 : a.provider_registry_sha256 = b.provider_registry_sha256
  provider_override_sha256 : a.provider_override_sha256 = b.provider_override_sha256
  packages : a.packages.Perm b.packages

theorem name_order_injective {a b : ProjectInputIdentityPackage} (h : name_order a = name_order b) :
    a.name = b.name := by
  unfold name_order at h
  exact as_bytes_injective (List.map_injective_iff.mpr (fun _ _ h => UInt8.toNat_inj.mp h) h)

/-- Reordered packages with distinct names are written the same. -/
theorem sorted_packages_eq {packages packages' : List ProjectInputIdentityPackage}
    (hnodup : (packages.map ProjectInputIdentityPackage.name).Nodup)
    (h : packages.Perm packages') :
    sort_by_key name_order packages = sort_by_key name_order packages' := by
  refine sort_by_key_perm_eq name_order h ?_
  refine (List.nodup_map_iff_inj_on (List.Nodup.of_map _ hnodup)).mpr fun a ha b hb heq => ?_
  exact List.inj_on_of_nodup_map hnodup ha hb (name_order_injective heq)

/-- **The bytes determine the material**, up to the order of its packages. -/
theorem material_bytes_eq_iff {a b : ProjectInputIdentityMaterial} (ha : a.Valid) (hb : b.Valid)
    (hea : MaterialEncodable a) (heb : MaterialEncodable b) :
    material_bytes a = material_bytes b ↔ SameUpToOrder a b := by
  constructor
  · intro h
    unfold material_bytes at h
    have h := List.append_cancel_left h
    obtain ⟨hpath, h⟩ := field_bytes_cut hea.project_path heb.project_path h
    obtain ⟨hstate, h⟩ := field_bytes_cut (encodable_state _) (encodable_state _) h
    obtain ⟨htoolchain, h⟩ := field_bytes_cut hea.toolchain heb.toolchain h
    obtain ⟨htoolchain_sha, h⟩ := field_bytes_cut (encodable_digest _) (encodable_digest _) h
    obtain ⟨hmanifest, h⟩ := field_bytes_cut (encodable_digest _) (encodable_digest _) h
    obtain ⟨hoverride, h⟩ :=
      field_bytes_cut (encodable_optional_digest _) (encodable_optional_digest _) h
    obtain ⟨hregistry, h⟩ :=
      field_bytes_cut (encodable_optional_digest _) (encodable_optional_digest _) h
    obtain ⟨hprovider, h⟩ :=
      field_bytes_cut (encodable_optional_digest _) (encodable_optional_digest _) h
    obtain ⟨hcount, h⟩ := field_bytes_cut (encodable_count _) (encodable_count _) h
    have hstate := state_name_injective (as_bytes_injective hstate)
    have hcount := be64_injective hea.count heb.count hcount
    -- the sorted packages are the same list
    have hsorted : sort_by_key name_order a.packages = sort_by_key name_order b.packages := by
      refine ((package_field_delimited a.state).flatMap (r := []) (s := []) ?_ ?_ ?_ ?_).1
      · rw [sort_by_key_length, sort_by_key_length, hcount]
      · intro package hpackage
        rw [mem_sort_by_key] at hpackage
        exact ⟨ha.packages package hpackage, hea.packages package hpackage⟩
      · intro package hpackage
        rw [mem_sort_by_key] at hpackage
        exact ⟨hstate ▸ hb.packages package hpackage, heb.packages package hpackage⟩
      · rw [List.append_nil, List.append_nil]
        exact h
    exact ⟨as_bytes_injective hpath, hstate, as_bytes_injective htoolchain,
      Sha256.ext htoolchain_sha, Sha256.ext hmanifest, optional_digest_injective hoverride,
      optional_digest_injective hregistry, optional_digest_injective hprovider,
      (sort_by_key_perm name_order a.packages).symm.trans
        (hsorted ▸ sort_by_key_perm name_order b.packages)⟩
  · intro h
    unfold material_bytes packages_bytes
    rw [h.project_path, h.state, h.toolchain, h.toolchain_sha256, h.manifest_sha256,
      h.override_sha256, h.provider_registry_sha256, h.provider_override_sha256,
      h.packages.length_eq, sorted_packages_eq ha.names h.packages]

/-! ## The identity of an input that was read -/

/-- A path that is text. No path in memory is longer than `isize::MAX` bytes. -/
structure TextPath (path : CanonicalPath) : Prop where
  utf8 : ∃ text, path.to_str = some text
  in_memory : path.bytes.length < 2 ^ 63

/-- The paths that the identity of an input writes. -/
structure TextPaths (input : StableProjectInput) (provider : Option StableProviderPair) : Prop where
  root : TextPath input.project_root
  path_packages : ∀ package ∈ input.path_packages, TextPath package.directory
  provider_packages : ∀ pair, provider = some pair →
    ∀ package ∈ pair.packages, TextPath package.directory

theorem TextPath.utf8_path {path : CanonicalPath} (h : TextPath path) (label : String) :
    ∃ text, utf8_path path label = .ok text ∧ text ≠ [] ∧ byte_len text < 2 ^ 63 := by
  obtain ⟨text, htext⟩ := h.utf8
  have hbytes : path.bytes = as_bytes text := from_utf8_eq_some.mp htext
  refine ⟨text, ?_, ?_, ?_⟩
  · unfold Evidence.utf8_path
    rw [htext]
  · rintro rfl
    have habsolute := path.absolute
    rw [hbytes] at habsolute
    cases habsolute
  · unfold byte_len
    rw [← hbytes]
    exact h.in_memory

/-- The values of a package of bounded name and revision can be written. -/
theorem package_encodable {package : ProjectInputIdentityPackage}
    (hname : byte_len package.name ≤ MAX_SHORT_STRING_BYTES)
    (hrevision : byte_len (package.revision.getD []) ≤ 40)
    (hpath : byte_len (package.path.getD []) < 2 ^ 63) : PackageEncodable package := by
  have hblob (value : List UInt8) : (blob_bytes value).length = 8 + value.length :=
    List.length_append
  unfold MAX_SHORT_STRING_BYTES at hname
  unfold byte_len at hname hrevision hpath
  refine ⟨?_, ?_, ?_, ?_⟩ <;> unfold Encodable
  · omega
  · omega
  · omega
  · unfold record_bytes
    rw [List.length_append, List.length_cons, List.length_append, hblob, hblob, hblob]
    omega

theorem valid_revision_spec {revision : Str} (h : valid_revision revision = true) :
    revision ≠ [] ∧ byte_len revision ≤ 40 := by
  unfold valid_revision at h
  rw [Bool.and_eq_true, decide_eq_true_eq] at h
  refine ⟨?_, h.1.le⟩
  rintro rfl
  exact absurd h.1 (by decide)

section Derivation

variable {input : StableProjectInput} {provider : Option StableProviderPair}

/-- The provider that the identity of an input is derived with. -/
def identity_provider (input : StableProjectInput) (provider : Option StableProviderPair) :
    Option StableProviderPair :=
  if input.state = .ProviderBound then provider else none

/-- A standalone or dependency-free input has the identity of each of its packages. -/
theorem identity_package_unbound (hinput : input.Read provider) (hpaths : TextPaths input provider)
    (hstate : input.state ≠ .ProviderBound) {package : ProjectManifestPackage}
    (hpackage : package ∈ input.manifest.manifest.packages) :
    ∃ identity, identity_package input none package = .ok identity ∧
      identity.name = package.name ∧ PackageAccepted input.state identity := by
  have hname : byte_len package.name ≤ MAX_SHORT_STRING_BYTES :=
    (hinput.manifest.names.plain _ (List.mem_map_of_mem hpackage)).2
  have hvalid := hinput.manifest.sources package hpackage
  unfold identity_package
  rcases hsource : package.source with revision | directory
  · rw [hsource] at hvalid
    obtain ⟨hrevision, hlength⟩ := valid_revision_spec hvalid
    refine ⟨⟨package.name, .Git, some revision, none⟩, rfl, rfl, ⟨hrevision, ?_⟩,
      package_encodable hname hlength (Nat.two_pow_pos 63)⟩
    rw [if_neg hstate]
  · obtain ⟨binding, hbinding, hbinding_name⟩ :=
      List.mem_map.mp (hinput.resolved package hpackage directory hsource)
    rcases hfind : input.path_packages.find? fun binding => decide (binding.name = package.name)
      with _ | found
    · rw [List.find?_eq_none] at hfind
      exact absurd (decide_eq_true hbinding_name) (hfind binding hbinding)
    · obtain ⟨hfound, -⟩ := find_key_some hfind
      obtain ⟨text, htext, hnonempty, hshort⟩ :=
        (hpaths.path_packages found hfound).utf8_path "project path package directory"
      refine ⟨⟨package.name, .Path, none, some text⟩, ?_, rfl, ⟨hstate, rfl, hnonempty⟩,
        package_encodable hname (Nat.zero_le _) hshort⟩
      dsimp only
      rw [hfind]
      exact bind_eq_ok.mpr ⟨text, htext, rfl⟩

/-- A provider-bound input has the identity of each of its packages. -/
theorem identity_package_bound {pair : StableProviderPair} (hinput : input.Read provider)
    (hpair : pair.Read) (hprovider : provider = some pair) (hpaths : TextPaths input provider)
    (hstate : input.state = .ProviderBound)
    (hmatched : (compare_project_manifest_to_provider input.manifest.manifest
      pair.registry.registry).state = .Matched) {package : ProjectManifestPackage}
    (hpackage : package ∈ input.manifest.manifest.packages) :
    ∃ identity, identity_package input (some pair) package = .ok identity ∧
      identity.name = package.name ∧ PackageAccepted input.state identity := by
  have hname : byte_len package.name ≤ MAX_SHORT_STRING_BYTES :=
    (hinput.manifest.names.plain _ (List.mem_map_of_mem hpackage)).2
  obtain ⟨registered, hregistered, hregistered_name, hsource⟩ :=
    compare_matched hinput.manifest hpair.registry_names.nodup hmatched package hpackage
  obtain ⟨binding, hbinding, rfl⟩ := hpair.verified hregistered
  have hbinding_name : binding.name = package.name := hregistered_name
  have hfind : pair.packages.find? (fun binding => decide (binding.name = package.name)) =
      some binding := by
    rw [← hbinding_name]
    exact find_key_of_mem hpair.nodup hbinding
  obtain ⟨hrevision, hlength⟩ := valid_revision_spec (hpair.revisions _ hregistered)
  obtain ⟨text, htext, hnonempty, hshort⟩ :=
    (hpaths.provider_packages pair hprovider binding hbinding).utf8_path
      "provider package directory"
  have hpath : git_path (some pair) package.name binding.registered.revision =
      .ok (some text) := by
    unfold git_path
    dsimp only
    rw [hfind]
    dsimp only
    refine (if_neg (not_not.mpr rfl)).trans ?_
    rw [htext]
    rfl
  refine ⟨⟨package.name, .Git, some binding.registered.revision, some text⟩, ?_, rfl,
    ⟨hrevision, ?_⟩, package_encodable hname hlength hshort⟩
  · unfold identity_package
    rw [hsource]
    exact bind_eq_ok.mpr ⟨_, hpath, rfl⟩
  · rw [if_pos hstate]
    exact hnonempty

/-- The digests of the provider are there exactly when the state asks for them. -/
theorem provider_digests_valid (hinput : input.Read provider) {project_path : Str}
    {packages : List ProjectInputIdentityPackage}
    (hpackages : packages.length = input.manifest.manifest.packages.length) :
    ∃ digests, provider_digests input (identity_provider input provider) = .ok digests ∧
      StateValid ⟨project_path, input.state, input.toolchain, input.toolchain_file.sha256,
        input.manifest.file.sha256, optional_sha input.overrides, digests.1, digests.2,
        packages⟩ := by
  have hclassified := hinput.classified
  unfold provider_digests identity_provider StateValid
  rcases hstate : input.state with _ | _ | _
  · rw [hstate] at hclassified
    rcases hclassified with ⟨hempty, hoverrides⟩ | _ | _
    refine ⟨(none, none), rfl, ?_, rfl, rfl, ?_⟩
    · rw [hoverrides]
      rfl
    · rw [hempty] at hpackages
      exact List.eq_nil_of_length_eq_zero hpackages
  · exact ⟨(none, none), rfl, rfl, rfl⟩
  · rw [hstate] at hclassified
    rcases hclassified with _ | _ | ⟨pair, document, hprovider, hoverrides, -, -, hsha⟩
    refine ⟨(some pair.registry.file.sha256, some pair.overrides.file.sha256), ?_, ?_⟩
    · rw [if_pos rfl, hprovider, hoverrides]
      dsimp only
      rw [if_neg (not_not.mpr hsha)]
    · rw [hoverrides]
      exact ⟨Option.some_ne_none _, Option.some_ne_none _, Option.some_ne_none _,
        congrArg some hsha⟩

/-- Every package of an input has its identity. -/
theorem identity_packages (hinput : input.Read provider)
    (hpair : ∀ pair, provider = some pair → pair.Read) (hpaths : TextPaths input provider)
    {package : ProjectManifestPackage} (hpackage : package ∈ input.manifest.manifest.packages) :
    ∃ identity, identity_package input (identity_provider input provider) package =
        .ok identity ∧
      identity.name = package.name ∧ PackageAccepted input.state identity := by
  unfold identity_provider
  by_cases hstate : input.state = .ProviderBound
  · have hclassified := hinput.classified
    rw [hstate] at hclassified
    rcases hclassified with _ | _ | ⟨pair, document, hprovider, -, hmatched, -, -⟩
    rw [if_pos hstate, hprovider]
    exact identity_package_bound hinput (hpair pair hprovider) hprovider hpaths hstate hmatched
      hpackage
  · rw [if_neg hstate]
    exact identity_package_unbound hinput hpaths hstate hpackage

/-- **The derivation succeeds** on every input that was read. -/
theorem derive_succeeds (hinput : input.Read provider)
    (hpair : ∀ pair, provider = some pair → pair.Read) (hpaths : TextPaths input provider) :
    ∃ identity, derive_project_input_identity input (identity_provider input provider) =
      .ok identity := by
  obtain ⟨project_path, hproject_path, hnonempty, hshort⟩ :=
    hpaths.root.utf8_path "project root"
  obtain ⟨packages, hpackages⟩ :=
    forall₂_of_partners fun package => identity_packages hinput hpair hpaths
  have hmap : input.manifest.manifest.packages.mapM
      (identity_package input (identity_provider input provider)) = .ok packages :=
    mapM_eq_ok_iff.mpr (hpackages.imp fun _ _ h => h.1)
  have hnames : packages.map ProjectInputIdentityPackage.name =
      input.manifest.manifest.packages.map ProjectManifestPackage.name := by
    rw [← List.forall₂_eq_eq_eq, List.forall₂_map_left_iff, List.forall₂_map_right_iff]
    exact hpackages.flip.imp fun _ _ h => h.2.1
  have haccepted : ∀ package ∈ packages, PackageAccepted input.state package := by
    intro package hpackage
    obtain ⟨_, -, -, -, h⟩ := forall₂_partner hpackages.flip hpackage
    exact h
  obtain ⟨digests, hdigests, hstate⟩ := @provider_digests_valid _ _ hinput project_path packages
    hpackages.length_eq.symm
  refine ⟨_, bind_eq_ok.mpr ⟨project_path, hproject_path, bind_eq_ok.mpr ⟨digests, hdigests,
    bind_eq_ok.mpr ⟨packages, hmap, canonical_project_input_identity_eq_ok.mpr ⟨?_, ?_, rfl⟩⟩⟩⟩⟩
  · refine ⟨hnonempty, hinput.toolchain, hstate, ?_, ?_,
      fun package hpackage => (haccepted package hpackage).1⟩
    · rw [hnames]
      exact hinput.manifest.names.nodup
    · intro package hpackage
      refine (hinput.manifest.names.plain package.name ?_).1
      rw [← hnames]
      exact List.mem_map_of_mem hpackage
  · have htoolchain := hinput.toolchain_short
    have hcount := hinput.manifest.names.bounded
    unfold byte_len at hshort
    unfold byte_len TOOLCHAIN_MAX_BYTES at htoolchain
    unfold MAX_PROVIDER_PACKAGES at hcount
    refine ⟨?_, ?_, ?_, fun package hpackage => (haccepted package hpackage).2⟩
    · exact lt_trans hshort (by decide)
    · exact lt_of_le_of_lt htoolchain (by decide)
    · rw [← hnames, List.length_map] at hcount
      exact lt_of_le_of_lt hcount (by decide)

end Derivation

/-- **The identity of an input.** It can be derived from every input that was read, with the
provider exactly when the input is bound to it; and the bytes, and so the digest, are those of
the material up to the order of its packages. -/
theorem identity_binds_the_material :
    (∀ (before after : ProjectMoment → FileSystem) (project_root : CanonicalDirectory)
        (provider : Option StableProviderPair) (input : StableProjectInput),
      (∀ pair, provider = some pair → ∃ files isolation_root registry_candidate
        override_candidate package_root_candidate, read_provider_pair files isolation_root
          registry_candidate override_candidate package_root_candidate = .ok pair) →
      read_project_input before after project_root provider = .ok input →
      TextPaths input provider →
      ∃ identity, derive_project_input_identity input
        (if input.state = .ProviderBound then provider else none) = .ok identity) ∧
    ∀ (material material' : ProjectInputIdentityMaterial)
        (identity identity' : ProjectInputIdentityV1),
      canonical_project_input_identity material = .ok identity →
      canonical_project_input_identity material' = .ok identity' →
      (identity.canonical_bytes = identity'.canonical_bytes ↔ SameUpToOrder material material') ∧
      (NoCollision identity.canonical_bytes identity'.canonical_bytes →
        (identity.digest = identity'.digest ↔ SameUpToOrder material material')) := by
  constructor
  · intro before after project_root provider input hpair hread hpaths
    refine derive_succeeds (read_project_input_eq_ok hread) (fun pair hprovider => ?_) hpaths
    obtain ⟨_, _, _, _, _, h⟩ := hpair pair hprovider
    exact read_provider_pair_eq_ok h
  · intro material material' identity identity' h h'
    obtain ⟨hvalid, hencodable, rfl⟩ := canonical_project_input_identity_eq_ok.mp h
    obtain ⟨hvalid', hencodable', rfl⟩ := canonical_project_input_identity_eq_ok.mp h'
    have hbytes := material_bytes_eq_iff hvalid hvalid' hencodable hencodable'
    refine ⟨hbytes, fun hcollision => ?_⟩
    rw [← hbytes]
    exact ⟨hcollision, fun h => congrArg digest h⟩

/-- The material of a standalone project with a Git package and a path package. -/
def sample_material (packages : List ProjectInputIdentityPackage) : ProjectInputIdentityMaterial :=
  ⟨"/p".toList, .Standalone, "v4".toList, digest [], digest [], none, none, none, packages⟩

def sample_git : ProjectInputIdentityPackage := ⟨"b".toList, .Git, some sample_revision, none⟩

def sample_path : ProjectInputIdentityPackage := ⟨"c".toList, .Path, none, some "/p/c".toList⟩

/-- The material is accepted with its packages in either order. -/
theorem sample_material_accepted {packages : List ProjectInputIdentityPackage}
    (h : packages = [sample_git, sample_path] ∨ packages = [sample_path, sample_git]) :
    canonical_project_input_identity (sample_material packages) =
      .ok ⟨project_id "/p".toList, digest (material_bytes (sample_material packages)),
        material_bytes (sample_material packages)⟩ := by
  have hgit : PackageAccepted .Standalone sample_git :=
    ⟨⟨by decide, rfl⟩, package_encodable (by decide) (by decide +kernel) (by decide)⟩
  have hpath : PackageAccepted .Standalone sample_path :=
    ⟨⟨by decide, rfl, by decide⟩, package_encodable (by decide) (by decide) (by decide)⟩
  have hall : ∀ package ∈ packages, package.name ≠ [] ∧ PackageAccepted .Standalone package := by
    rcases h with rfl | rfl <;>
    · simp only [List.forall_mem_cons, List.not_mem_nil, false_imp_iff, implies_true, and_true]
      exact ⟨⟨by decide, by assumption⟩, by decide, by assumption⟩
  have hpath_text : "/p".toList ≠ [] ∧ (as_bytes "/p".toList).length < 2 ^ 64 := by decide
  have htoolchain : "v4".toList ≠ [] ∧ (as_bytes "v4".toList).length < 2 ^ 64 := by decide
  refine canonical_project_input_identity_eq_ok.mpr ⟨⟨hpath_text.1, htoolchain.1, ⟨rfl, rfl⟩, ?_,
    fun package hpackage => (hall package hpackage).1,
    fun package hpackage => (hall package hpackage).2.1⟩, ⟨hpath_text.2, htoolchain.2, ?_,
    fun package hpackage => (hall package hpackage).2.2⟩, rfl⟩
  · rcases h with rfl | rfl <;> decide
  · rcases h with rfl | rfl <;> decide

/-- A standalone project has an identity, which does not depend on the order of its packages. -/
theorem identity_binds_the_material_sample :
    (∃ identity, derive_project_input_identity sample_project_input none = .ok identity) ∧
    material_bytes (sample_material [sample_git, sample_path]) =
      material_bytes (sample_material [sample_path, sample_git]) := by
  constructor
  · refine identity_binds_the_material.1 sample_project_files sample_project_files sample_root none
      sample_project_input (fun _ h => (by cases h)) sample_project_read ⟨?_, ?_, ?_⟩
    · exact ⟨⟨"/p".toList, from_utf8_as_bytes _⟩, by decide⟩
    · exact fun _ h => absurd h List.not_mem_nil
    · exact fun _ h => (by cases h)
  · refine (identity_binds_the_material.2 _ _ _ _ (sample_material_accepted (.inl rfl))
      (sample_material_accepted (.inr rfl))).1.mpr ?_
    exact ⟨rfl, rfl, rfl, rfl, rfl, rfl, rfl, rfl, List.Perm.swap _ _ _⟩

end LeanBun.Evidence
