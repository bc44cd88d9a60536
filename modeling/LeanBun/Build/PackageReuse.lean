/-
The build keys of packages.

`PackageBuildKeyV1` is a digest over the source key of a package, the build context and
the keys of its direct dependencies. `package_build_keys_v1` computes it for the packages
of a lock in one memoized recursion: a package that is not from Git, or that depends on
one that is not, has no key and is left out. The maps and the set of the source are lists
here, looked up by package; a map has its newest entry first.
-/
import LeanBun.Lock.Source

set_option autoImplicit false

namespace LeanBun.Build

open LeanBun.Lib LeanBun.Core LeanBun.Lock

/-- The kinds that the key derivation reports. -/
inductive BuildErrorKind where
  | InvalidField
deriving DecidableEq

structure BuildError where
  kind : BuildErrorKind
  message : String
deriving DecidableEq

/-- A result of the crate. -/
abbrev BuildResult (α : Type) := Except BuildError α

def invalid (message : String) : BuildError := ⟨.InvalidField, message⟩

/-! ## One key -/

/-- `PackageBuildContextV1`. -/
structure PackageBuildContextV1 where
  lean_toolchain : Str
  compiler_githash : Str
  lake_version : Str
  platform : Str
  platform_abi_sha256 : Sha256
  build_policy_sha256 : Sha256
  facets_sha256 : Sha256
  environment_sha256 : Sha256
  lake_executable_sha256 : Sha256

/-- `PackageBuildKeyV1`. -/
structure PackageBuildKeyV1 where
  digest : Sha256
deriving DecidableEq

/-- `PackageBuildDependencyV1`. -/
structure PackageBuildDependencyV1 where
  package : PackageKeyV1
  build : PackageBuildKeyV1
deriving DecidableEq

/-- The characters `validate_text` refuses. -/
def is_break (c : Char) : Bool :=
  decide (c = '\x00') || decide (c = '\n') || decide (c = '\r')

/-- What `validate_text` accepts. -/
def valid_text (value : Str) (maximum : ℕ) : Bool :=
  !(value.isEmpty || decide (maximum < byte_len value) || value.any is_break)

def validate_text (value : Str) (maximum : ℕ) (label : String) :
    BuildResult (PLift (valid_text value maximum = true)) :=
  ensure _ (invalid (label ++ " is empty or non-canonical"))

/-- One dependency under the digest. -/
def dependency_bytes (dependency : PackageBuildDependencyV1) : List UInt8 :=
  string_bytes dependency.package.scope ++ (string_bytes dependency.package.name ++
    dependency.build.digest.bytes)

/-- The build context under the digest. -/
def context_bytes (context : PackageBuildContextV1) : List UInt8 :=
  string_bytes context.lean_toolchain ++ (string_bytes context.compiler_githash ++
    (string_bytes context.lake_version ++ (string_bytes context.platform ++
      (context.platform_abi_sha256.bytes ++ (context.build_policy_sha256.bytes ++
        (context.facets_sha256.bytes ++ (context.environment_sha256.bytes ++
          context.lake_executable_sha256.bytes)))))))

/-- Everything `PackageBuildKeyV1::new` feeds to the hasher. -/
def build_bytes (source : PackageSourceKeyV1) (context : PackageBuildContextV1)
    (dependencies : List PackageBuildDependencyV1) : List UInt8 :=
  as_bytes "leanbun-package-build-v1\x00".toList ++ (source.digest.bytes ++
    (context_bytes context ++ (be64 dependencies.length ++
      dependencies.flatMap dependency_bytes)))

/-- `PackageBuildKeyV1::new`. -/
def PackageBuildKeyV1.new (source : PackageSourceKeyV1) (context : PackageBuildContextV1)
    (dependencies : List PackageBuildDependencyV1) : BuildResult PackageBuildKeyV1 := do
  let _ ← validate_text context.lean_toolchain 512 "Lean toolchain"
  let _ ← validate_text context.compiler_githash 128 "compiler githash"
  let _ ← validate_text context.lake_version 128 "Lake version"
  let _ ← validate_text context.platform 256 "platform"
  let dependencies := sort_by_key PackageBuildDependencyV1.package dependencies
  let _ ← ensure (adjacent_equal PackageBuildDependencyV1.package dependencies = false)
    (invalid "duplicate direct package-build dependency")
  let _ ← ensure (dependencies.length ≤ 4096)
    (invalid "direct package-build dependency count exceeds limit")
  return ⟨Core.digest (build_bytes source context dependencies)⟩

/-! ## The keys of a lock -/

/-- The map of the keys that are derived. -/
abbrev BuildKeys := List (PackageKeyV1 × PackageBuildKeyV1)

/-- `BTreeMap::get`. -/
def BuildKeys.get (keys : BuildKeys) (key : PackageKeyV1) : Option PackageBuildKeyV1 :=
  (keys.find? fun entry => decide (entry.1 = key)).map Prod.snd

/-- The `resolved` map and the `visiting` set. -/
structure DeriveState where
  resolved : BuildKeys
  visiting : List PackageKeyV1

/-- `visiting.remove(key)`. -/
def DeriveState.leave (state : DeriveState) (key : PackageKeyV1) : DeriveState :=
  { state with visiting := state.visiting.erase key }

/-- The result of one derivation: the key, if there is one, and the state after it. -/
abbrev Derivation := BuildResult (Option PackageBuildKeyV1 × DeriveState)

/-- The loop over the direct dependencies, which stops at the first without a key. -/
def derive_dependencies (derive : PackageKeyV1 → DeriveState → Derivation) :
    List PackageKeyV1 → List PackageBuildDependencyV1 → DeriveState →
      BuildResult (Option (List PackageBuildDependencyV1) × DeriveState)
  | [], dependencies, state => .ok (some dependencies, state)
  | dependency :: rest, dependencies, state => do
    let (build, state) ← derive dependency state
    match build with
    | none => return (none, state)
    | some build => derive_dependencies derive rest (dependencies ++ [⟨dependency, build⟩]) state

/-- `derive_package_key`. The fuel counts open derivations: each of them is of a package
of its own, so with one more than there are packages it is not what stops the recursion. -/
def derive_package_key (packages : List LockedLeanPackageV1) (context : PackageBuildContextV1) :
    ℕ → PackageKeyV1 → DeriveState → Derivation
  | 0, _, _ => .error (invalid "package-build dependency graph contains a cycle")
  | fuel + 1, key, state =>
    match state.resolved.get key with
    | some value => .ok (some value, state)
    | none =>
      if key ∈ state.visiting then
        .error (invalid "package-build dependency graph contains a cycle")
      else
        let entered : DeriveState := { state with visiting := key :: state.visiting }
        match packages.find? fun package => decide (package.key = key) with
        | none => .error (invalid "package-build dependency is absent from lock")
        | some package =>
          match PackageSourceKeyV1.from_locked_package package with
          | none => .ok (none, entered.leave key)
          | some source => do
            let (dependencies, state) ← derive_dependencies
              (derive_package_key packages context fuel) package.dependencies [] entered
            match dependencies with
            | none => return (none, state.leave key)
            | some dependencies =>
              let build ← PackageBuildKeyV1.new source context dependencies
              return (some build, ⟨(key, build) :: state.resolved, state.visiting.erase key⟩)

/-- `package_build_keys_v1`. -/
def package_build_keys_v1 (lock : LeanBunLockV1) (context : PackageBuildContextV1) :
    BuildResult BuildKeys := do
  let state ← lock.packages.foldlM (fun (state : DeriveState) package => do
    let (_, state) ← derive_package_key lock.packages context (lock.packages.length + 1)
      package.key state
    return state) ⟨[], []⟩
  return state.resolved

/-! ## What one key is made of -/

section New

variable {source : PackageSourceKeyV1} {context : PackageBuildContextV1}
  {dependencies : List PackageBuildDependencyV1} {build : PackageBuildKeyV1}

/-- A context whose four texts are accepted. -/
def valid_context (context : PackageBuildContextV1) : Prop :=
  valid_text context.lean_toolchain 512 = true ∧ valid_text context.compiler_githash 128 = true ∧
    valid_text context.lake_version 128 = true ∧ valid_text context.platform 256 = true

instance (context : PackageBuildContextV1) : Decidable (valid_context context) :=
  inferInstanceAs (Decidable (_ ∧ _))

/-- A key that was made is the digest of its parts, in order. -/
theorem PackageBuildKeyV1.new_eq (h : PackageBuildKeyV1.new source context dependencies = .ok build) :
    valid_context context ∧ build = ⟨Core.digest (build_bytes source context
      (sort_by_key PackageBuildDependencyV1.package dependencies))⟩ := by
  unfold PackageBuildKeyV1.new at h
  obtain ⟨⟨htoolchain⟩, -, h⟩ := bind_eq_ok.mp h
  obtain ⟨⟨hgithash⟩, -, h⟩ := bind_eq_ok.mp h
  obtain ⟨⟨hlake⟩, -, h⟩ := bind_eq_ok.mp h
  obtain ⟨⟨hplatform⟩, -, h⟩ := bind_eq_ok.mp h
  obtain ⟨_, -, h⟩ := bind_eq_ok.mp h
  obtain ⟨_, -, h⟩ := bind_eq_ok.mp h
  cases h
  exact ⟨⟨htoolchain, hgithash, hlake, hplatform⟩, rfl⟩

/-- Sorted dependencies within the limit have a key in every valid context. -/
theorem PackageBuildKeyV1.new_ok (hcontext : valid_context context)
    (hsorted : StrictlySorted PackageBuildDependencyV1.package dependencies)
    (hcount : dependencies.length ≤ 4096) :
    ∃ build, PackageBuildKeyV1.new source context dependencies = .ok build := by
  obtain ⟨htoolchain, hgithash, hlake, hplatform⟩ := hcontext
  have hsort : sort_by_key PackageBuildDependencyV1.package dependencies = dependencies :=
    hsorted.sort_eq
  have hadjacent : adjacent_equal PackageBuildDependencyV1.package
      (sort_by_key PackageBuildDependencyV1.package dependencies) = false := by
    rw [hsort]
    exact hsorted.adjacent
  have hlength : (sort_by_key PackageBuildDependencyV1.package dependencies).length ≤ 4096 := by
    rw [hsort]
    exact hcount
  simp only [PackageBuildKeyV1.new, validate_text, ensure_ok htoolchain, ensure_ok hgithash,
    ensure_ok hlake, ensure_ok hplatform, ensure_ok hadjacent, ensure_ok hlength, bind, Except.bind,
    pure, Except.pure]
  exact ⟨_, rfl⟩

end New

/-- A package key fits the length prefix. -/
theorem key_text_short {value : Str} {allow_empty : Bool}
    (h : valid_atom value MAX_NAME_BYTES allow_empty = true) : ShortText value :=
  lt_of_le_of_lt (valid_atom_length h) (by decide)

theorem dependency_bytes_delimited : Delimited (fun _ => True) dependency_bytes := by
  intro a b r s _ _ h
  unfold dependency_bytes at h
  rw [List.append_assoc, List.append_assoc, List.append_assoc, List.append_assoc] at h
  obtain ⟨hscope, h⟩ := string_bytes_delimited _ _ _ _ (key_text_short a.package.scope_valid)
    (key_text_short b.package.scope_valid) h
  obtain ⟨hname, h⟩ := string_bytes_delimited _ _ _ _ (key_text_short a.package.name_valid)
    (key_text_short b.package.name_valid) h
  obtain ⟨hdigest, hrest⟩ := sha_bytes_delimited _ _ _ _ trivial trivial h
  obtain ⟨package, ⟨digest⟩⟩ := a
  obtain ⟨package', ⟨digest'⟩⟩ := b
  have hpackage : package = package' := PackageKeyV1.ext hscope hname
  have hbuild : digest = digest' := hdigest
  rw [hpackage, hbuild]
  exact ⟨rfl, hrest⟩

/-- **What a build key binds.** In one context the bytes determine the source key and the
dependencies with their keys. -/
theorem build_bytes_bind {source source' : PackageSourceKeyV1} {context : PackageBuildContextV1}
    {dependencies dependencies' : List PackageBuildDependencyV1}
    (hcount : dependencies.length < 2 ^ 64) (hcount' : dependencies'.length < 2 ^ 64)
    (h : build_bytes source context dependencies = build_bytes source' context dependencies') :
    source = source' ∧ dependencies = dependencies' := by
  unfold build_bytes at h
  have h := List.append_cancel_left h
  obtain ⟨hsource, h⟩ := sha_bytes_delimited _ _ _ _ trivial trivial h
  have h := List.append_cancel_left h
  obtain ⟨hlength, h⟩ := be64_delimited _ _ _ _ hcount hcount' h
  have hrest : dependencies.flatMap dependency_bytes ++ [] =
      dependencies'.flatMap dependency_bytes ++ [] := by
    rw [List.append_nil, List.append_nil]
    exact h
  obtain ⟨hdependencies, -⟩ := dependency_bytes_delimited.flatMap hlength (fun _ _ => trivial)
    (fun _ _ => trivial) hrest
  obtain ⟨digest⟩ := source
  obtain ⟨digest'⟩ := source'
  have hdigest : digest = digest' := hsource
  exact ⟨by rw [hdigest], hdependencies⟩

end LeanBun.Build
