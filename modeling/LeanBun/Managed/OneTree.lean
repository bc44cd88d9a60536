/-
What a registered package is locked with, against the tree it is archived from.

The digest of the tree is that of the archive, which is what Git has at the revision. The
digests of the configuration and the manifest, and the edges, are those of the checkout's
working directory. An input describes one tree exactly when the two have the same files.
-/
import LeanBun.Core.Evaluate
import LeanBun.Managed.Registered

set_option autoImplicit false

namespace LeanBun.Managed.Registered

open LeanBun.Lib LeanBun.Core LeanBun.Codec LeanBun.Plan LeanBun.Evidence LeanBun.Lock LeanBun.Store

/-! ## The tree of an archive -/

/-- The path of a file inside a tree. Nothing outside the tree has one. -/
def tree_path (name : Str) : Option Str :=
  let parts := (split '/' name).filter fun part => decide (part ≠ []) && decide (part ≠ ['.'])
  if name.head? = some '/' ∨ ['.', '.'] ∈ parts then none
  else some (portable_relative_path parts)

/-- The bytes of a file of a tree. -/
def tree_file (plan : TreePlan) (name : Str) : Option (List UInt8) :=
  (tree_path name).bind fun path => (planned plan.entries path).bind PlannedTreeEntry.bytes

/-- The tree that is archived for a package: what Git has at its revision, or under its
directory there. -/
def archived_plan (world : Checkouts) (package : RegisteredGitPackageV1) :
    RegisteredResult TreePlan := do
  let output ← archived_bytes world package
  store_message (parse_tar output LeanStoreLimitsV1.registered_provider)

/-- **One tree**: the digests and the edges of an input are those of a tree and its files. -/
structure OneTree (keys : Str → Option PackageKeyV1) (input : RegisteredGitInputV1)
    (plan : TreePlan) : Prop where
  tree : input.tree_sha256 = plan.digest
  config : ∃ bytes, tree_file plan input.config_file = some bytes ∧
    input.config_sha256 = digest bytes
  manifest : ∀ name, input.manifest_file = some name → ∃ bytes text,
    tree_file plan name = some bytes ∧ input.manifest_sha256 = some (digest bytes) ∧
      from_utf8 bytes = some text ∧ manifest_dependencies keys text = .ok input.dependencies
  no_manifest : input.manifest_file = none →
    input.manifest_sha256 = none ∧ input.dependencies = []

/-- The input describes the tree that is archived for its package. -/
def DescribesOneTree (world : Checkouts) (keys : Str → Option PackageKeyV1)
    (input : RegisteredGitInputV1) : Prop :=
  ∃ plan, archived_plan world input.toRegisteredGitPackageV1 = .ok plan ∧ OneTree keys input plan

/-- The checkout has a file byte for byte as the tree has it. -/
def SameFile (world : Checkouts) (package : RegisteredGitPackageV1) (plan : TreePlan) (name : Str) :
    Prop :=
  ∃ bytes, tree_file plan name = some bytes ∧
    world.read (join_path package.directory name) = .ok bytes

/-- **The working directory agrees** with the archived tree on the files that are read. -/
def WorkingTreeAgrees (world : Checkouts) (package : RegisteredGitPackageV1) : Prop :=
  ∃ plan, archived_plan world package = .ok plan ∧ SameFile world package plan package.config_file ∧
    ∀ name, package.manifest_file = some name → SameFile world package plan name

/-- The packages that the manifest of the project declares. -/
def declared_packages (files : ProviderMoment → FileSystem) (development_root : CanonicalDirectory)
    (world : Checkouts) (project_manifest : List UInt8) : List RegisteredGitPackageV1 :=
  match managed_packages files development_root world project_manifest with
  | .ok managed => managed.2.filterMap fun value =>
      (package_fields managed.1 [] value).toOption.map Prod.snd
  | .error _ => []

/-- No two files that are compared collide. -/
def FilesDistinguished (world : Checkouts) (package : RegisteredGitPackageV1) : Prop :=
  ∀ plan name a b, archived_plan world package = .ok plan →
    name = package.config_file ∨ package.manifest_file = some name →
    tree_file plan name = some a → world.read (join_path package.directory name) = .ok b →
    NoCollision a b

/-! ## What is loaded -/

/-- **What is loaded** for a package: the digest of the archived tree, and the digests and the
edges of the files that the checkout has. -/
structure Loaded (world : Checkouts) (keys : Str → Option PackageKeyV1)
    (input : RegisteredGitInputV1) : Prop where
  tree : ∃ plan, archived_plan world input.toRegisteredGitPackageV1 = .ok plan ∧
    input.tree_sha256 = plan.digest
  config : ∃ bytes, world.read (join_path input.directory input.config_file) = .ok bytes ∧
    input.config_sha256 = digest bytes
  manifest : ∀ name, input.manifest_file = some name → ∃ bytes text,
    world.read (join_path input.directory name) = .ok bytes ∧
      input.manifest_sha256 = some (digest bytes) ∧ from_utf8 bytes = some text ∧
      manifest_dependencies keys text = .ok input.dependencies
  no_manifest : input.manifest_file = none →
    input.manifest_sha256 = none ∧ input.dependencies = []

theorem file_sha256_eq_ok {world : Checkouts} {path : List UInt8} {sha256 : Sha256}
    (h : file_sha256 world path = .ok sha256) :
    ∃ bytes, world.read path = .ok bytes ∧ sha256 = digest bytes := by
  obtain ⟨_, -, h⟩ := bind_eq_ok.mp h
  obtain ⟨_, -, h⟩ := bind_eq_ok.mp h
  obtain ⟨bytes, hread, h⟩ := bind_eq_ok.mp h
  cases h
  exact ⟨bytes, mapError_eq_ok.mp hread, rfl⟩

theorem registered_limits_valid : LeanStoreLimitsV1.registered_provider.validate =
    .ok LeanStoreLimitsV1.registered_provider := ok_of_toOption (by decide)

theorem git_archive_digests_eq_ok {world : Checkouts} {package : RegisteredGitPackageV1}
    {digests : Sha256 × Sha256} (h : git_archive_digests world package = .ok digests) :
    ∃ plan, archived_plan world package = .ok plan ∧ digests.2 = plan.digest := by
  obtain ⟨output, houtput, h⟩ := bind_eq_ok.mp h
  obtain ⟨tree, htree, h⟩ := bind_eq_ok.mp h
  cases h
  have htree := mapError_eq_ok.mp htree
  unfold normalized_tar_tree_sha256_v1 at htree
  rw [registered_limits_valid] at htree
  obtain ⟨_, hlimits, htree⟩ := bind_eq_ok.mp htree
  cases hlimits
  obtain ⟨plan, hplan, htree⟩ := bind_eq_ok.mp htree
  cases htree
  exact ⟨plan, bind_eq_ok.mpr ⟨output, houtput, mapError_eq_ok.mpr hplan⟩, rfl⟩

/-- What the first pass over a package loads. -/
structure Digested (world : Checkouts) (package : RegisteredGitPackageV1)
    (input : RegisteredGitInputV1) : Prop where
  declared : input.toRegisteredGitPackageV1 = package
  tree : ∃ plan, archived_plan world package = .ok plan ∧ input.tree_sha256 = plan.digest
  config : ∃ bytes, world.read (join_path package.directory package.config_file) = .ok bytes ∧
    input.config_sha256 = digest bytes
  manifest : ∀ name, package.manifest_file = some name → ∃ bytes,
    world.read (join_path package.directory name) = .ok bytes ∧
      input.manifest_sha256 = some (digest bytes)
  no_manifest : package.manifest_file = none → input.manifest_sha256 = none
  dependencies : input.dependencies = []

theorem package_digests_eq_ok {world : Checkouts} {package : RegisteredGitPackageV1}
    {input : RegisteredGitInputV1} (h : package_digests world package = .ok input) :
    Digested world package input := by
  obtain ⟨digests, hdigests, h⟩ := bind_eq_ok.mp h
  obtain ⟨config, hconfig, h⟩ := bind_eq_ok.mp h
  obtain ⟨manifest, hmanifest, h⟩ := bind_eq_ok.mp h
  cases h
  refine ⟨rfl, git_archive_digests_eq_ok hdigests, file_sha256_eq_ok hconfig, ?_, ?_, rfl⟩
  · intro name hname
    rw [hname] at hmanifest
    obtain ⟨sha256, hfile, rfl⟩ := map_eq_ok hmanifest
    obtain ⟨bytes, hread, rfl⟩ := file_sha256_eq_ok hfile
    exact ⟨bytes, hread, rfl⟩
  · intro hnone
    rw [hnone] at hmanifest
    cases hmanifest
    rfl

theorem package_fields_nil {pair : StableProviderPair} {names : List Str} {value : StrictJson}
    {fields : Str × RegisteredGitPackageV1} (h : package_fields pair names value = .ok fields) :
    package_fields pair [] value = .ok fields := by
  obtain ⟨item, hitem, h⟩ := bind_eq_ok.mp h
  obtain ⟨package_type, htype, h⟩ := bind_eq_ok.mp h
  obtain ⟨hgit, hensure, h⟩ := bind_eq_ok.mp h
  obtain ⟨name, hname, h⟩ := bind_eq_ok.mp h
  obtain ⟨_, -, h⟩ := bind_eq_ok.mp h
  exact bind_eq_ok.mpr ⟨item, hitem, bind_eq_ok.mpr ⟨package_type, htype,
    bind_eq_ok.mpr ⟨hgit, hensure, bind_eq_ok.mpr ⟨name, hname,
      bind_eq_ok.mpr ⟨_, ensure_ok List.not_mem_nil _, h⟩⟩⟩⟩⟩

/-- The first pass loads the declared packages one by one. -/
theorem load_packages_eq_ok {world : Checkouts} {pair : StableProviderPair} {names : List Str}
    {values : List StrictJson} {loaded : List Str × List RegisteredGitInputV1}
    (h : load_packages world pair names values = .ok loaded) :
    List.Forall₂ (Digested world)
      (values.filterMap fun value => (package_fields pair [] value).toOption.map Prod.snd)
      loaded.2 := by
  induction values generalizing names loaded with
  | nil =>
    cases h
    exact List.Forall₂.nil
  | cons value values ih =>
    obtain ⟨fields, hfields, h⟩ := bind_eq_ok.mp h
    obtain ⟨input, hinput, h⟩ := bind_eq_ok.mp h
    obtain ⟨rest, hrest, h⟩ := bind_eq_ok.mp h
    cases h
    rw [List.filterMap_cons, package_fields_nil hfields]
    exact List.Forall₂.cons (package_digests_eq_ok hinput) (ih hrest)

theorem read_to_string_eq_ok {world : Checkouts} {path : List UInt8} {label : String} {text : Str}
    (h : read_to_string world path label = .ok text) :
    ∃ bytes, world.read path = .ok bytes ∧ from_utf8 bytes = some text := by
  obtain ⟨bytes, hread, h⟩ := bind_eq_ok.mp h
  split at h
  · rename_i found hfound
    cases h
    exact ⟨bytes, mapError_eq_ok.mp hread, hfound⟩
  · cases h

/-- The second pass adds the edges, and nothing else. -/
theorem with_dependencies_eq_ok {world : Checkouts} {keys : Str → Option PackageKeyV1}
    {package : RegisteredGitPackageV1} {digested input : RegisteredGitInputV1}
    (hdigested : Digested world package digested)
    (h : with_dependencies world keys digested = .ok input) :
    input.toRegisteredGitPackageV1 = package ∧ Loaded world keys input := by
  obtain rfl := hdigested.declared
  unfold with_dependencies at h
  split at h
  · rename_i hnone
    cases h
    refine ⟨rfl, hdigested.tree, hdigested.config, fun name hname => ?_,
      fun _ => ⟨hdigested.no_manifest hnone, hdigested.dependencies⟩⟩
    rw [hnone] at hname
    cases hname
  · rename_i manifest_file hsome
    obtain ⟨dependencies, hdependencies, h⟩ := bind_eq_ok.mp h
    cases h
    obtain ⟨text, htext, hdependencies⟩ := bind_eq_ok.mp hdependencies
    obtain ⟨bytes, hread, htext⟩ := read_to_string_eq_ok htext
    refine ⟨rfl, hdigested.tree, hdigested.config, fun name hname => ?_, fun hnone => ?_⟩
    · have heq : manifest_file = name := Option.some.inj (hsome.symm.trans hname)
      obtain ⟨found, hfound, hsha⟩ := hdigested.manifest name hname
      rw [heq] at hread
      have hbytes : bytes = found := Except.ok.inj (hread.symm.trans hfound)
      exact ⟨bytes, text, hread, hbytes ▸ hsha, htext, hdependencies⟩
    · exact absurd (hsome.symm.trans hnone) (Option.some_ne_none _)

/-- The keys of a closure depend on nothing but the keys of its packages. -/
theorem package_keys_congr {inputs inputs' : List RegisteredGitInputV1}
    (h : List.Forall₂ (fun a b : RegisteredGitInputV1 => a.key = b.key) inputs inputs') :
    package_keys inputs = package_keys inputs' := by
  have hkeys (inputs : List RegisteredGitInputV1) (name : Str) : package_keys inputs name =
      (inputs.map fun input => input.key).reverse.find? fun key => decide (key.name = name) := by
    unfold package_keys by_name
    rw [← List.map_reverse, List.find?_map]
    rfl
  have hmap : (inputs.map fun input => input.key) = inputs'.map fun input => input.key := by
    rw [← List.forall₂_eq_eq_eq, List.forall₂_map_left_iff, List.forall₂_map_right_iff]
    exact h
  funext name
  rw [hkeys, hkeys, hmap]

/-- **What `load_registered_git_closure` returns**: the declared packages, each as it is loaded. -/
theorem load_registered_git_closure_eq_ok {files : ProviderMoment → FileSystem}
    {development_root : CanonicalDirectory} {world : Checkouts} {project_manifest : List UInt8}
    {inputs : List RegisteredGitInputV1}
    (h : load_registered_git_closure files development_root world project_manifest = .ok inputs) :
    List.Forall₂ (fun package (input : RegisteredGitInputV1) =>
        input.toRegisteredGitPackageV1 = package ∧ Loaded world (package_keys inputs) input)
      (declared_packages files development_root world project_manifest) inputs := by
  obtain ⟨managed, hmanaged, h⟩ := bind_eq_ok.mp h
  obtain ⟨loaded, hloaded, h⟩ := bind_eq_ok.mp h
  obtain ⟨_, -, h⟩ := bind_eq_ok.mp h
  have hfirst := load_packages_eq_ok hloaded
  have hsecond := mapM_eq_ok_iff.mp h
  unfold declared_packages
  rw [hmanaged]
  dsimp only
  -- the two passes, one package after the other
  have hboth : List.Forall₂ (fun package (input : RegisteredGitInputV1) =>
      input.toRegisteredGitPackageV1 = package ∧ Loaded world (package_keys loaded.2) input)
      (managed.2.filterMap fun value =>
        (package_fields managed.1 [] value).toOption.map Prod.snd) inputs := by
    refine forall₂_chain ?_ hfirst hsecond
    intro package digested input hdigested hinput
    exact with_dependencies_eq_ok hdigested hinput
  have hkeys : package_keys loaded.2 = package_keys inputs := by
    refine package_keys_congr (hsecond.imp fun digested input hinput => ?_)
    unfold with_dependencies at hinput
    split at hinput
    · cases hinput
      rfl
    · obtain ⟨_, -, hinput⟩ := bind_eq_ok.mp hinput
      cases hinput
      rfl
  rw [← hkeys]
  exact hboth

/-! ## One tree -/

section OneTree

variable {world : Checkouts} {keys : Str → Option PackageKeyV1} {input : RegisteredGitInputV1}

/-- A file that was read from the checkout is the tree's when the digests are equal. -/
theorem same_file_iff (hfiles : FilesDistinguished world input.toRegisteredGitPackageV1)
    {plan : TreePlan} (hplan : archived_plan world input.toRegisteredGitPackageV1 = .ok plan)
    {name : Str} (hname : name = input.config_file ∨ input.manifest_file = some name)
    {bytes : List UInt8} (hread : world.read (join_path input.directory name) = .ok bytes) :
    (∃ found, tree_file plan name = some found ∧ digest bytes = digest found) ↔
      SameFile world input.toRegisteredGitPackageV1 plan name := by
  constructor
  · rintro ⟨found, hfound, hdigest⟩
    have hsame : found = bytes := hfiles plan name found bytes hplan hname hfound hread hdigest.symm
    exact ⟨bytes, hsame ▸ hfound, hread⟩
  · rintro ⟨found, hfound, hread'⟩
    exact ⟨found, hfound, by rw [Except.ok.inj (hread.symm.trans hread')]⟩

/-- **An input describes one tree** exactly when the working directory agrees with it. -/
theorem describes_one_tree_iff (hinput : Loaded world keys input)
    (hfiles : FilesDistinguished world input.toRegisteredGitPackageV1) :
    DescribesOneTree world keys input ↔
      WorkingTreeAgrees world input.toRegisteredGitPackageV1 := by
  obtain ⟨plan, hplan, htree⟩ := hinput.tree
  obtain ⟨config_bytes, hconfig_read, hconfig⟩ := hinput.config
  constructor
  · rintro ⟨other, hother, hone⟩
    obtain rfl : other = plan := Except.ok.inj (hother.symm.trans hplan)
    refine ⟨other, hother, ?_, fun name hname => ?_⟩
    · obtain ⟨found, hfound, hsha⟩ := hone.config
      exact (same_file_iff hfiles hother (.inl rfl) hconfig_read).mp
        ⟨found, hfound, hconfig.symm.trans hsha⟩
    · obtain ⟨bytes, _, hread, hsha, -, -⟩ := hinput.manifest name hname
      obtain ⟨found, _, hfound, hsha', -, -⟩ := hone.manifest name hname
      exact (same_file_iff hfiles hother (.inr hname) hread).mp
        ⟨found, hfound, Option.some.inj (hsha.symm.trans hsha')⟩
  · rintro ⟨other, hother, hsame_config, hsame_manifest⟩
    obtain rfl : other = plan := Except.ok.inj (hother.symm.trans hplan)
    refine ⟨other, hother, htree, ?_, fun name hname => ?_, hinput.no_manifest⟩
    · obtain ⟨found, hfound, hread⟩ := hsame_config
      exact ⟨found, hfound, by rw [hconfig, Except.ok.inj (hconfig_read.symm.trans hread)]⟩
    · obtain ⟨bytes, text, hread, hsha, htext, hdependencies⟩ := hinput.manifest name hname
      obtain ⟨found, hfound, hread'⟩ := hsame_manifest name hname
      obtain rfl : bytes = found := Except.ok.inj (hread.symm.trans hread')
      exact ⟨bytes, text, hfound, hsha, htext, hdependencies⟩

end OneTree

/-- The keys of a manifest come in order. -/
theorem dependency_keys_sorted {package_keys : Str → Option PackageKeyV1} {keys : List PackageKeyV1}
    {values : List StrictJson} {dependencies : List PackageKeyV1}
    (h : dependency_keys package_keys keys values = .ok dependencies) :
    dependencies.Pairwise (· ≤ ·) := by
  induction values generalizing keys with
  | nil =>
    cases h
    exact sort_by_key_sorted id keys
  | cons value values ih =>
    obtain ⟨_, -, h⟩ := bind_eq_ok.mp h
    obtain ⟨_, -, h⟩ := bind_eq_ok.mp h
    split at h
    · cases h
    · obtain ⟨_, -, h⟩ := bind_eq_ok.mp h
      exact ih h

theorem Loaded.dependencies_sorted {world : Checkouts} {keys : Str → Option PackageKeyV1}
    {input : RegisteredGitInputV1} (h : Loaded world keys input) :
    input.dependencies.Pairwise (· ≤ ·) := by
  rcases hcase : input.manifest_file with _ | name
  · rw [(h.no_manifest hcase).2]
    exact List.Pairwise.nil
  · obtain ⟨_, _, -, -, -, hdependencies⟩ := h.manifest name hcase
    obtain ⟨_, -, hdependencies⟩ := bind_eq_ok.mp hdependencies
    obtain ⟨_, -, hdependencies⟩ := bind_eq_ok.mp hdependencies
    obtain ⟨_, -, hdependencies⟩ := bind_eq_ok.mp hdependencies
    exact dependency_keys_sorted hdependencies

/-- The lock entry of an input: its digests and its edges. -/
structure LocksInput (input : RegisteredGitInputV1) (locked : LockedLeanPackageV1) : Prop where
  key : locked.key = input.key
  tree : locked.source_tree_sha256 = input.tree_sha256
  config : locked.config_sha256 = input.config_sha256
  manifest : locked.manifest_sha256 = input.manifest_sha256
  dependencies : locked.dependencies = input.dependencies

theorem registered_git_package_eq_ok {input : RegisteredGitInputV1} {locked : LockedLeanPackageV1}
    (hsorted : input.dependencies.Pairwise (· ≤ ·))
    (h : registered_git_package input input.dependencies = .ok locked) :
    LocksInput input locked := by
  obtain ⟨_, -, h⟩ := bind_eq_ok.mp h
  obtain ⟨_, -, h⟩ := bind_eq_ok.mp h
  obtain ⟨_, -, h⟩ := bind_eq_ok.mp h
  have h := mapError_eq_ok.mp h
  obtain ⟨_, -, h⟩ := bind_eq_ok.mp h
  obtain ⟨_, -, h⟩ := bind_eq_ok.mp h
  obtain ⟨_, -, h⟩ := bind_eq_ok.mp h
  obtain ⟨_, -, h⟩ := bind_eq_ok.mp h
  obtain ⟨_, -, h⟩ := bind_eq_ok.mp h
  obtain ⟨_, -, h⟩ := bind_eq_ok.mp h
  obtain ⟨_, -, h⟩ := bind_eq_ok.mp h
  cases h
  exact ⟨rfl, rfl, rfl, rfl, sort_by_key_eq_self id hsorted⟩

/-- **One tree for each package.** The inputs of a closure that was loaded describe one tree
each exactly when the working directory of every declared package agrees with its archived
tree; and the lock entry of an input has the digests and the edges of the input. -/
theorem registered_closure_one_tree_iff {files : ProviderMoment → FileSystem}
    {development_root : CanonicalDirectory} {world : Checkouts} {project_manifest : List UInt8}
    {inputs : List RegisteredGitInputV1}
    (hload : load_registered_git_closure files development_root world project_manifest = .ok inputs)
    (hfiles : ∀ package ∈ declared_packages files development_root world project_manifest,
      FilesDistinguished world package) :
    ((∀ input ∈ inputs, DescribesOneTree world (package_keys inputs) input) ↔
      ∀ package ∈ declared_packages files development_root world project_manifest,
        WorkingTreeAgrees world package) ∧
    ∀ input ∈ inputs, ∀ locked, registered_git_package input input.dependencies = .ok locked →
      LocksInput input locked := by
  have hpairs := load_registered_git_closure_eq_ok hload
  constructor
  · constructor
    · intro h package hpackage
      obtain ⟨input, hinput, rfl, hloaded⟩ := forall₂_partner hpairs hpackage
      exact (describes_one_tree_iff hloaded (hfiles _ hpackage)).mp (h input hinput)
    · intro h input hinput
      obtain ⟨package, hpackage, rfl, hloaded⟩ := forall₂_partner hpairs.flip hinput
      exact (describes_one_tree_iff hloaded (hfiles _ hpackage)).mpr (h _ hpackage)
  · intro input hinput locked hlocked
    obtain ⟨_, -, -, hloaded⟩ := forall₂_partner hpairs.flip hinput
    exact registered_git_package_eq_ok hloaded.dependencies_sorted hlocked

/-! ## A checkout that was changed -/

def sample_commit : Str := List.replicate 40 'a'

def sample_development_root : CanonicalDirectory := ⟨as_bytes "/d".toList, by decide⟩

def sample_set_text : Str :=
  ("\x7b\"version\":\"1.0.0\",\"packagesDir\":\"p\",\"packages\":[\x7b\"name\":\"b\"," ++
    "\"type\":\"git\",\"rev\":\"").toList ++ sample_commit ++ "\"\x7d]\x7d".toList

def sample_paths_text : Str :=
  ("\x7b\"version\":\"1.0.0\",\"packages\":[\x7b\"name\":\"b\",\"type\":\"path\"," ++
    "\"dir\":\"/d/lean/package-set/packages/b\"\x7d]\x7d").toList

/-- The files of a provider with one package. -/
def sample_set_files : FileSystem where
  present _ := .ok true
  canonicalize path := if h : path.head? = some 0x2f then .ok ⟨path, h⟩ else .error []
  is_dir _ := .ok true
  contents path :=
    if path = as_bytes "/d/lean/registry/manifest.json".toList then .ok (as_bytes sample_set_text)
    else .ok (as_bytes sample_paths_text)

/-- The archive of a tree with one file. -/
def sample_archive : List UInt8 :=
  as_bytes "l".toList ++ List.replicate 99 0 ++ as_bytes "0000644".toList ++ List.replicate 17 0 ++
    as_bytes "00000000001".toList ++ List.replicate 13 0 ++ as_bytes "002413".toList ++ [0, 0x20] ++
    as_bytes "0".toList ++ List.replicate 355 0 ++ as_bytes "a".toList ++ List.replicate 1535 0

def sample_closure_text : Str :=
  "\x7b\"packages\":[\x7b\"type\":\"git\",\"name\":\"b\",\"scope\":\"\",\"rev\":\"".toList ++
    sample_commit ++ ("\",\"url\":\"https://h.x/o/r\",\"configFile\":\"l\"," ++
      "\"inherited\":false\x7d]\x7d").toList

/-- A checkout whose configuration is the given one. -/
def sample_checkouts (config : List UInt8) : Checkouts where
  metadata _ := .ok (some 1)
  read path :=
    .ok (if path = as_bytes "/m".toList then as_bytes sample_closure_text else config)
  archive _ _ := .ok sample_archive

def sample_directory : CanonicalPath :=
  ⟨as_bytes "/d/lean/package-set/packages/b".toList, by decide⟩

def sample_package_root : CanonicalDirectory :=
  ⟨as_bytes "/d/lean/package-set/packages".toList, by decide⟩

def sample_set_pair : StableProviderPair :=
  ⟨⟨⟨sample_set_text⟩, "1.0.0".toList, "p".toList, [⟨"b".toList, sample_commit⟩]⟩,
    ⟨⟨sample_paths_text⟩, "1.0.0".toList, [⟨"b".toList, "/d/lean/package-set/packages/b".toList⟩]⟩,
    sample_package_root, [⟨"b".toList, sample_commit, sample_directory⟩]⟩

theorem sample_set_read :
    read_provider_pair (fun _ => sample_set_files) sample_development_root
      "lean/registry/manifest.json".toList "lean/overrides/package-overrides.json".toList
      "lean/package-set/packages".toList = .ok sample_set_pair := by
  have hroot : canonicalize_contained_directory sample_set_files sample_development_root
      "lean/package-set/packages".toList = .ok sample_package_root :=
    ok_of_toOption (by decide +kernel)
  have hregistry : read_provider_registry sample_set_files sample_development_root
      "lean/registry/manifest.json".toList = .ok sample_set_pair.registry :=
    ok_of_toOption (by decide +kernel)
  have hoverrides : read_provider_override sample_set_files sample_development_root
      "lean/overrides/package-overrides.json".toList = .ok sample_set_pair.overrides :=
    ok_of_toOption (by decide +kernel)
  have hpackages : match_provider_documents (fun _ => sample_set_files)
      sample_set_pair.registry.registry sample_set_pair.overrides.overrides sample_package_root =
      .ok sample_set_pair.packages := ok_of_toOption (by decide +kernel)
  refine bind_eq_ok.mpr ⟨_, hroot, bind_eq_ok.mpr ⟨_, hregistry, bind_eq_ok.mpr ⟨_, hoverrides,
    bind_eq_ok.mpr ⟨_, hpackages, bind_eq_ok.mpr ⟨_, hregistry, bind_eq_ok.mpr ⟨_, hoverrides,
    bind_eq_ok.mpr ⟨_, ensure_ok ⟨rfl, rfl⟩ _, rfl⟩⟩⟩⟩⟩⟩⟩

/-- The fields of the only package of a manifest. -/
def only_package (pair : StableProviderPair) (json : StrictJson) :
    Option (Str × RegisteredGitPackageV1) := do
  let root ← (object json "managed Git manifest").toOption
  let packages ← (array (get root "packages") "managed Git packages").toOption
  match packages with
  | [value] => (package_fields pair [] value).toOption
  | _ => none

/-- The package that the sample declares. -/
structure SamplePackage (fields : Str × RegisteredGitPackageV1) : Prop where
  name : fields.1 = "b".toList
  config : fields.2.config_file = "l".toList
  manifest : fields.2.manifest_file = none
  directory : fields.2.directory = sample_directory

theorem sample_managed (config : List UInt8) : ∃ value fields,
    managed_packages (fun _ => sample_set_files) sample_development_root (sample_checkouts config)
      (as_bytes "/m".toList) = .ok (sample_set_pair, [value]) ∧
    package_fields sample_set_pair [] value = .ok fields ∧ SamplePackage fields := by
  have hevaluated : ((parse_strict_json sample_closure_text).toOption.bind
      (only_package sample_set_pair)).map (fun fields =>
        (fields.1, fields.2.config_file, fields.2.manifest_file, fields.2.directory)) =
      some ("b".toList, "l".toList, none, sample_directory) := by decide +kernel
  obtain ⟨fields, hfields, hvalues⟩ := Option.map_eq_some_iff.mp hevaluated
  obtain ⟨json, hjson, hpackage⟩ := Option.bind_eq_some_iff.mp hfields
  obtain ⟨root, hroot, hpackage⟩ := Option.bind_eq_some_iff.mp hpackage
  obtain ⟨packages, hpackages, hpackage⟩ := Option.bind_eq_some_iff.mp hpackage
  split at hpackage
  · rename_i value
    have htext : read_to_string (sample_checkouts config) (as_bytes "/m".toList)
        "cannot read managed Git manifest" = .ok sample_closure_text := by
      refine bind_eq_ok.mpr ⟨as_bytes sample_closure_text, ?_, ?_⟩
      · simp [sample_checkouts, Except.mapError]
      · rw [from_utf8_as_bytes]
    refine ⟨value, fields, ?_, ok_of_toOption hpackage, ?_⟩
    · refine bind_eq_ok.mpr ⟨_, mapError_eq_ok.mpr sample_set_read, bind_eq_ok.mpr ⟨_, htext, ?_⟩⟩
      refine bind_eq_ok.mpr ⟨json, mapError_eq_ok.mpr (ok_of_toOption hjson), ?_⟩
      refine bind_eq_ok.mpr ⟨root, ok_of_toOption hroot, ?_⟩
      refine bind_eq_ok.mpr ⟨[value], ok_of_toOption hpackages, ?_⟩
      exact bind_eq_ok.mpr ⟨_, ensure_ok (by simp) _, rfl⟩
    · simp only [Prod.mk.injEq] at hvalues
      exact ⟨hvalues.1, hvalues.2.1, hvalues.2.2.1, hvalues.2.2.2⟩
  · cases hpackage

/-- The tree of the sample. -/
theorem sample_planned (config : List UInt8) (package : RegisteredGitPackageV1) : ∃ plan,
    archived_plan (sample_checkouts config) package = .ok plan ∧
    normalized_tar_tree_sha256_v1 sample_archive LeanStoreLimitsV1.registered_provider =
      .ok plan.digest ∧
    tree_file plan "l".toList = some [0x61] := by
  have hevaluated : (parse_tar sample_archive LeanStoreLimitsV1.registered_provider).toOption.map
      (fun plan => tree_file plan "l".toList) = some (some [0x61]) := by decide +kernel
  obtain ⟨plan, hplan, hfile⟩ := Option.map_eq_some_iff.mp hevaluated
  refine ⟨plan, bind_eq_ok.mpr ⟨_, rfl, mapError_eq_ok.mpr (ok_of_toOption hplan)⟩, ?_, hfile⟩
  unfold normalized_tar_tree_sha256_v1
  rw [registered_limits_valid]
  exact bind_eq_ok.mpr ⟨_, rfl, bind_eq_ok.mpr ⟨plan, ok_of_toOption hplan, rfl⟩⟩

/-- The configuration is not the manifest of the project. -/
theorem sample_config_read (config : List UInt8) {package : RegisteredGitPackageV1}
    (hdirectory : package.directory = sample_directory) (hfile : package.config_file = "l".toList) :
    (sample_checkouts config).read (join_path package.directory package.config_file) =
      .ok config := by
  rw [hdirectory, hfile]
  have hpath : join_path sample_directory "l".toList ≠ as_bytes "/m".toList := by decide
  exact congrArg Except.ok (if_neg hpath)

/-- **The sample is loaded**, whatever its configuration. -/
theorem sample_loaded (config : List UInt8) : ∃ package inputs,
    declared_packages (fun _ => sample_set_files) sample_development_root (sample_checkouts config)
      (as_bytes "/m".toList) = [package] ∧ package.manifest_file = none ∧
    package.config_file = "l".toList ∧ package.directory = sample_directory ∧
    load_registered_git_closure (fun _ => sample_set_files) sample_development_root
      (sample_checkouts config) (as_bytes "/m".toList) = .ok inputs := by
  obtain ⟨value, fields, hmanaged, hfields, hsample⟩ := sample_managed config
  obtain ⟨plan, hplan, htree, -⟩ := sample_planned config fields.2
  have hdigests : git_archive_digests (sample_checkouts config) fields.2 =
      .ok (digest sample_archive, plan.digest) :=
    bind_eq_ok.mpr ⟨_, rfl, bind_eq_ok.mpr ⟨_, mapError_eq_ok.mpr htree, rfl⟩⟩
  have hconfig : file_sha256 (sample_checkouts config)
      (join_path fields.2.directory fields.2.config_file) = .ok (digest config) := by
    refine bind_eq_ok.mpr ⟨some 1, rfl, bind_eq_ok.mpr ⟨_, ensure_ok (by decide) _, ?_⟩⟩
    rw [sample_config_read config hsample.directory hsample.config]
    rfl
  have hinput : ∃ input, package_digests (sample_checkouts config) fields.2 = .ok input ∧
      input.manifest_file = none := by
    refine ⟨_, bind_eq_ok.mpr ⟨_, hdigests, bind_eq_ok.mpr ⟨_, hconfig,
      bind_eq_ok.mpr ⟨none, ?_, rfl⟩⟩⟩, hsample.manifest⟩
    rw [hsample.manifest]
    rfl
  obtain ⟨input, hinput, hnone⟩ := hinput
  refine ⟨fields.2, [input], ?_, hsample.manifest, hsample.config, hsample.directory, ?_⟩
  · unfold declared_packages
    rw [hmanaged]
    simp [hfields, Except.toOption]
  · have hload : load_packages (sample_checkouts config) sample_set_pair [] [value] =
        .ok ([fields.1], [input]) :=
      bind_eq_ok.mpr ⟨_, hfields, bind_eq_ok.mpr ⟨_, hinput, bind_eq_ok.mpr ⟨_, rfl, rfl⟩⟩⟩
    refine bind_eq_ok.mpr ⟨_, hmanaged, bind_eq_ok.mpr ⟨_, hload, ?_⟩⟩
    have hnames : name_set [fields.1] =
        name_set (sample_set_pair.packages.map VerifiedProviderPackage.name) := by
      rw [hsample.name]
      rfl
    refine bind_eq_ok.mpr ⟨_, ensure_ok hnames _, mapM_eq_ok_iff.mpr ?_⟩
    refine List.Forall₂.cons ?_ List.Forall₂.nil
    unfold with_dependencies
    rw [hnone]

/-- The sample agrees when its configuration is the tree's. -/
theorem registered_closure_one_tree_iff_sample : ∃ inputs,
    load_registered_git_closure (fun _ => sample_set_files) sample_development_root
      (sample_checkouts [0x61]) (as_bytes "/m".toList) = .ok inputs ∧
    ∀ input ∈ inputs,
      DescribesOneTree (sample_checkouts [0x61]) (package_keys inputs) input := by
  obtain ⟨package, inputs, hdeclared, hmanifest, hconfig, hdirectory, hload⟩ := sample_loaded [0x61]
  obtain ⟨plan, hplan, -, hfile⟩ := sample_planned [0x61] package
  have hread := sample_config_read [0x61] hdirectory hconfig
  refine ⟨inputs, hload, (registered_closure_one_tree_iff hload ?_).1.mpr ?_⟩
  · rw [hdeclared, List.forall_mem_singleton]
    rintro other name a b hother (rfl | hname) ha hb -
    · obtain rfl := Except.ok.inj (hother.symm.trans hplan)
      rw [hconfig] at ha
      have hb : [0x61] = b := Except.ok.inj (hread.symm.trans hb)
      exact (Option.some.inj (ha.symm.trans hfile)).trans hb
    · rw [hmanifest] at hname
      cases hname
  · rw [hdeclared, List.forall_mem_singleton]
    refine ⟨plan, hplan, ⟨[0x61], hconfig ▸ hfile, hread⟩, fun name hname => ?_⟩
    rw [hmanifest] at hname
    cases hname

/-- **A changed configuration**: the input has the digest of the tree, and of a configuration
that the tree has not. -/
theorem changed_configuration_is_locked : ∃ inputs,
    load_registered_git_closure (fun _ => sample_set_files) sample_development_root
      (sample_checkouts [0x62]) (as_bytes "/m".toList) = .ok inputs ∧
    ¬∀ input ∈ inputs,
      DescribesOneTree (sample_checkouts [0x62]) (package_keys inputs) input := by
  obtain ⟨package, inputs, hdeclared, hmanifest, hconfig, hdirectory, hload⟩ := sample_loaded [0x62]
  obtain ⟨plan, hplan, -, hfile⟩ := sample_planned [0x62] package
  have hread := sample_config_read [0x62] hdirectory hconfig
  have hpairs := load_registered_git_closure_eq_ok hload
  obtain ⟨input, hinput, hpackage, hloaded⟩ :=
    forall₂_partner hpairs (hdeclared ▸ List.mem_singleton_self package)
  refine ⟨inputs, hload, fun h => ?_⟩
  obtain ⟨other, hother, hone⟩ := h input hinput
  rw [hpackage] at hother
  obtain rfl := Except.ok.inj (hother.symm.trans hplan)
  obtain ⟨found, hfound, hsha⟩ := hone.config
  obtain ⟨bytes, hbytes, hsha'⟩ := hloaded.config
  have hfile_name : input.config_file = "l".toList := by rw [hpackage, hconfig]
  rw [hfile_name, hfile] at hfound
  have hdirectory' : input.directory = package.directory := by rw [hpackage]
  rw [hdirectory', hfile_name, ← hconfig, hread] at hbytes
  cases hfound
  cases hbytes
  have hequal : digest [0x61] = digest [0x62] := hsha.symm.trans hsha'
  rw [digest_eq_evaluate, digest_eq_evaluate] at hequal
  exact absurd hequal (by decide +kernel)

end LeanBun.Managed.Registered
