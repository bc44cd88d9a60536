/-
The two verifiers of a materialized package.

The build gate compares every path of a package with the entries of its object; the
registry plans the directory again and compares the digest of the plan. Both pass
over what Lake caches in the package, and both leave the registered cache of one
package out.

They agree on everything else but three points. The gate passes over one `.lake`
directory at the root, the registry over every `.git` and `.lake` wherever it lies;
the gate bounds the registered cache; and only the registry looks at the executable
bits of the files.
-/
import LeanBun.Generation.Gate
import LeanBun.Managed.Record

set_option autoImplicit false

namespace LeanBun.Managed

open LeanBun.Lib LeanBun.Core LeanBun.Store LeanBun.Generation

/-! ## The verifier of the registry -/

/-- The digest that the package loop of `verify_generation_files` computes. -/
def observed_source_tree (package : GenerationPackageV1) (root : Option Tree) :
    StoreResult Sha256 :=
  if package.key_scope = "leanprover-community".toList ∧
      package.key_name = "proofwidgets".toList then
    normalized_directory_tree_sha256_excluding_exact_files_v1 root .registered_provider
      ["widget/package-lock.json.hash".toList]
  else normalized_directory_tree_sha256_v1 root .registered_provider

/-- The package loop of `verify_generation_files`. -/
def verify_generation_package (generation_root : PathBuf) (package : GenerationPackageV1)
    (tree : Tree) : ManagedResult Unit :=
  match relative_components (path_join generation_root "packages".toList) package.final_path with
  | none => .error (input_error "generation package final path drifted")
  | some place =>
    if tree.is_dir place then do
      let observed ← (observed_source_tree package (tree.directory place)).mapError
        fun error => input_error error.message
      if observed = package.source_tree_sha256 then .ok ()
      else .error (input_error "generation package source tree drifted")
    else .error (input_error "generation package final path drifted")

/-- A package of a generation as the registry knows it. -/
structure MaterializedPackage (generation_root : PathBuf) (package : GenerationPackageV1)
    (place : List Str) (tree : Tree) : Prop extends PackageDirectory package place tree where
  placed : relative_components (path_join generation_root "packages".toList) package.final_path =
    some place
  digested : package.source_tree_sha256 = tree_digest package.entries

/-- Every file of the source has the executable bit of its entry. -/
def ModesKept (package : GenerationPackageV1) (below : Tree) : Prop :=
  ∀ entry ∈ below, source_path package entry →
    ∀ found, source_entry (portable_relative_path entry.1) entry.2 = some found →
      ∀ expected ∈ package.entries, expected.path = found.path → found.mode = expected.mode

/-! ## The verdict of the registry -/

/-- The registry digests the plan without the registered cache. -/
theorem observed_source_tree_eq (package : GenerationPackageV1) (root : Option Tree) :
    observed_source_tree package root =
      plan_directory_excluding root .registered_provider (derived_cache package) >>=
        fun entries => .ok (tree_digest entries) := by
  have hlimits : LeanStoreLimitsV1.registered_provider.validate = .ok .registered_provider := by
    unfold LeanStoreLimitsV1.validate
    rw [ensure_ok valid_limits_presets.2]
    rfl
  unfold observed_source_tree derived_cache
  by_cases hkey : package.key_scope = "leanprover-community".toList ∧
      package.key_name = "proofwidgets".toList
  · have hvalid : validate_relative_entry_path "widget/package-lock.json.hash".toList = .ok () := by
      unfold validate_relative_entry_path
      rw [if_neg (by decide), if_neg (by decide), if_neg (by decide)]
    have hfree : (split '/' "widget/package-lock.json.hash".toList).any reserved_name = false := by
      decide
    rw [if_pos hkey, if_pos hkey]
    unfold normalized_directory_tree_sha256_excluding_exact_files_v1
    simp only [List.forIn_cons, List.forIn_nil, hvalid, ensure_ok hfree,
      ensure_ok (List.nodup_singleton _), hlimits, bind, Except.bind, pure, Except.pure]
  · rw [if_neg hkey, if_neg hkey]
    unfold normalized_directory_tree_sha256_v1
    rw [hlimits]
    rfl

section Verifiers

variable {generation_root : PathBuf} {package : GenerationPackageV1} {place : List Str} {tree : Tree}

theorem verify_generation_package_eq_ok
    (h : MaterializedPackage generation_root package place tree) :
    verify_generation_package generation_root package tree = .ok () ↔
      ∃ observed, plan_directory_excluding (some (tree.below place)) .registered_provider
        (derived_cache package) = .ok observed ∧ tree_digest observed = tree_digest package.entries := by
  have hroot : tree.directory place = some (tree.below place) := if_pos h.directory
  unfold verify_generation_package
  rw [h.placed]
  dsimp only
  rw [if_pos h.directory, bind_eq_ok, hroot, ← h.digested]
  constructor
  · rintro ⟨digest, hobserved, hsame⟩
    rw [mapError_eq_ok, observed_source_tree_eq] at hobserved
    obtain ⟨observed, hplan, hdigest⟩ := bind_eq_ok.mp hobserved
    refine ⟨observed, hplan, ?_⟩
    rw [Except.ok.inj hdigest]
    by_contra hdiffers
    rw [if_neg hdiffers] at hsame
    cases hsame
  · rintro ⟨observed, hplan, hsame⟩
    refine ⟨tree_digest observed, ?_, if_pos hsame⟩
    rw [mapError_eq_ok, observed_source_tree_eq]
    exact bind_eq_ok.mpr ⟨observed, hplan, rfl⟩

/-- The plan of the directory has the entries of the object exactly when the source
matches and the modes are kept. -/
theorem plan_eq_entries_iff (h : MaterializedPackage generation_root package place tree) :
    plan_directory_excluding (some (tree.below place)) .registered_provider
        (derived_cache package) = .ok package.entries ↔
      SourceMatches package (tree.below place) ∧ ModesKept package (tree.below place) := by
  obtain ⟨object, hobject, hentries⟩ := h.planned
  have hbelow := h.listing.below place
  have hmaximum := registered_limits.1
  have hsorted := plan_sorted hobject hmaximum hentries
  constructor
  · intro hplan
    have hmem : ∀ planned, planned ∈ package.entries ↔ _ := fun planned =>
      mem_plan hbelow hmaximum hplan
    have hreadable := ((plan_directory_eq_ok hbelow hmaximum).mp hplan).1
    have hfound : ∀ entry ∈ tree.below place, source_path package entry →
        ∀ found, source_entry (portable_relative_path entry.1) entry.2 = some found →
          found ∈ package.entries := fun entry hentry hsource found hsome =>
      (hmem found).mpr ⟨entry, hentry, planned_entry_eq_some.mpr ⟨hsource.1, hsource.2, hsome⟩⟩
    refine ⟨⟨?_, ?_, ?_⟩, ?_⟩
    · intro entry hentry hsource
      rcases hreadable entry hentry with hno | ⟨-, hsome⟩
      · exact absurd hno hsource.1
      · rw [if_neg hsource.2] at hsome
        obtain ⟨found, hfound_eq, -⟩ := hsome
        exact ⟨found, hfound entry hentry hsource found hfound_eq, found, hfound_eq, rfl⟩
    · intro expected hexpected
      obtain ⟨entry, hentry, hplanned⟩ := (hmem expected).mp hexpected
      obtain ⟨hreserved, hcache, hsome⟩ := planned_entry_eq_some.mp hplanned
      exact ⟨entry, hentry, ⟨hreserved, hcache⟩, (source_entry_path hsome).symm⟩
    · intro entry hentry hreserved hcache
      rcases hreadable entry hentry with hno | ⟨-, hfile⟩
      · exact absurd hno hreserved
      · rw [if_pos hcache] at hfile
        exact hfile
    · intro entry hentry hsource found hsome expected hexpected hpath
      have hsame : expected = found := hsorted.eq_of_key _ hexpected
        (hfound entry hentry hsource found hsome) (congrArg path_key hpath)
      rw [hsame]
  · rintro ⟨hsource, hmodes⟩
    -- what is found at a path of the source is the entry of that path
    have hexact : ∀ entry ∈ tree.below place, source_path package entry →
        ∃ found ∈ package.entries,
          source_entry (portable_relative_path entry.1) entry.2 = some found := by
      intro entry hentry hpath
      obtain ⟨expected, hexpected, found, hsome, hsame⟩ := hsource.present entry hentry hpath
      have hpath_eq : expected.path = found.path := by rw [← hsame]
      have hmode := hmodes entry hentry hpath found hsome expected hexpected hpath_eq
      rw [← hmode] at hsame
      have hsame : found = expected := hsame
      rw [← hsame] at hexpected
      exact ⟨found, hexpected, hsome⟩
    have hmembers : ∀ planned, planned ∈ (tree.below place).filterMap
        (planned_entry (derived_cache package)) ↔ planned ∈ package.entries := by
      intro planned
      rw [List.mem_filterMap]
      constructor
      · rintro ⟨entry, hentry, hplanned⟩
        obtain ⟨hreserved, hcache, hsome⟩ := planned_entry_eq_some.mp hplanned
        obtain ⟨found, hfound, hsame⟩ := hexact entry hentry ⟨hreserved, hcache⟩
        rw [hsome] at hsame
        rw [Option.some.inj hsame]
        exact hfound
      · intro hplanned
        obtain ⟨entry, hentry, hpath, htext⟩ := hsource.complete planned hplanned
        obtain ⟨found, hfound, hsome⟩ := hexact entry hentry hpath
        have hsame : planned = found := by
          refine hsorted.eq_of_key _ hplanned hfound (congrArg path_key ?_)
          rw [source_entry_path hsome, htext]
        rw [← hsame] at hsome
        exact ⟨entry, hentry, planned_entry_eq_some.mpr ⟨hpath.1, hpath.2, hsome⟩⟩
    obtain ⟨-, -, hexpanded, hcount⟩ := (plan_directory_eq_ok hobject hmaximum).mp hentries
    refine (plan_directory_eq_ok hbelow hmaximum).mpr ⟨?_, ?_, hexpanded, hcount⟩
    · intro entry hentry
      by_cases hreserved : reserved entry
      · exact Or.inl hreserved
      right
      by_cases hcache : portable_relative_path entry.1 ∈ derived_cache package
      · rw [if_pos hcache]
        exact ⟨derived_cache_valid hcache, hsource.cache entry hentry hreserved hcache⟩
      · rw [if_neg hcache]
        obtain ⟨found, hfound, hsome⟩ := hexact entry hentry ⟨hreserved, hcache⟩
        obtain ⟨hvalid, hsize⟩ := plan_entry_valid hobject hmaximum hentries hfound
        rw [source_entry_path hsome] at hvalid
        exact ⟨hvalid, found, hsome, hsize⟩
    · have hnodup : ((tree.below place).filterMap
          (planned_entry (derived_cache package))).Nodup := hbelow.planned_nodup.of_map
      have hperm := (List.perm_ext_iff_of_nodup hnodup hsorted.nodup.of_map).mpr hmembers
      have hkeys : ((tree.below place).filterMap (planned_entry (derived_cache package)) |>.map
          fun entry => path_key entry.path).Nodup := (hperm.map _).nodup_iff.mpr hsorted.nodup
      rw [sort_by_key_perm_eq _ hperm hkeys, hsorted.sort_eq]

/-- **The verdict of the registry.** Short of a collision it accepts exactly the
directories whose source matches with its modes. -/
theorem registry_accepts_iff (h : MaterializedPackage generation_root package place tree)
    (hcollision : ∀ observed, plan_directory_excluding (some (tree.below place)) .registered_provider
      (derived_cache package) = .ok observed →
        NoCollision (tree_bytes observed) (tree_bytes package.entries)) :
    verify_generation_package generation_root package tree = .ok () ↔
      SourceMatches package (tree.below place) ∧ ModesKept package (tree.below place) := by
  rw [verify_generation_package_eq_ok h, ← plan_eq_entries_iff h]
  obtain ⟨object, hobject, hentries⟩ := h.planned
  have hbelow := h.listing.below place
  obtain ⟨hmaximum, hfile, hmany⟩ := registered_limits
  have hcounted : ∀ {root : Tree} {cache : List Str} {entries : List NormalizedTreeEntryV1},
      root.Listing → plan_directory_excluding (some root) .registered_provider cache = .ok entries →
      entries.length < 2 ^ 64 := by
    intro root cache entries hroot hplan
    have hle := ((plan_directory_eq_ok hroot hmaximum).mp hplan).2.2.2
    omega
  constructor
  · rintro ⟨observed, hplan, hdigest⟩
    have hbytes := hcollision observed hplan hdigest
    have hsame : observed = package.entries := tree_bytes_injective
      (hcounted hbelow hplan) (hcounted hobject hentries)
      (fun _ hentry => plan_entry_small hbelow hmaximum hplan hfile hentry)
      (fun _ hentry => plan_entry_small hobject hmaximum hentries hfile hentry) hbytes
    rw [← hsame]
    exact hplan
  · intro hplan
    exact ⟨package.entries, hplan, rfl⟩

/-! ## The comparison -/

end Verifiers

/-! ## An empty package -/

/-- A package whose object is an empty directory. -/
def empty_package : GenerationPackageV1 :=
  ⟨[], "solo".toList, "/g/packages/solo".toList, tree_digest [], tree_digest [],
    "/store/objects/empty/tree".toList, []⟩

/-- Its directory, as it is materialized, and with Git metadata in it. -/
def empty_place : Tree := [(["solo".toList], .Directory)]

def git_place : Tree := [(["solo".toList], .Directory), (["solo".toList, ".git".toList], .Directory)]

theorem empty_package_materialized {tree : Tree} (hlisting : tree.Listing)
    (hdirectory : tree.is_dir ["solo".toList]) :
    MaterializedPackage "/g".toList empty_package ["solo".toList] tree where
  placed := by decide
  listing := hlisting
  directory := hdirectory
  planned := ⟨[], ⟨by decide, by decide, by decide⟩, rfl⟩
  digested := rfl

end LeanBun.Managed
