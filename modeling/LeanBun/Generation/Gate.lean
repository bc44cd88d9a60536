/-
The verdict of the build gate on a package.

The gate walks over the directory of a package and compares every path with the
entries of the package's object. It passes over one `.lake` directory at the root
and leaves the registered cache of one package out; the modes of files it does not
look at. The main result says which directories it accepts.
-/
import LeanBun.Generation.Tree

set_option autoImplicit false

namespace LeanBun.Generation

open LeanBun.Lib LeanBun.Core LeanBun.Store

/-! ## A package on disk -/

/-- The state of a package in a generation, whatever has become of its files: it is a
directory, and the package has the entries of an object. -/
structure PackageDirectory (package : GenerationPackageV1) (place : List Str) (tree : Tree) :
    Prop where
  listing : tree.Listing
  directory : tree.is_dir place
  planned : ∃ object : Tree, object.Listing ∧
    plan_directory (some object) .registered_provider = .ok package.entries

/-- The file that neither verifier compares. -/
def derived_cache (package : GenerationPackageV1) : List Str :=
  if package.key_scope = "leanprover-community".toList ∧
      package.key_name = "proofwidgets".toList then ["widget/package-lock.json.hash".toList]
  else []

/-- A listed path belongs to the source of the package. -/
def source_path (package : GenerationPackageV1) (entry : List Str × Node) : Prop :=
  ¬reserved entry ∧ portable_relative_path entry.1 ∉ derived_cache package

/-- What lies under a path is what an entry says, the executable bit aside. -/
def Matched (package : GenerationPackageV1) (entry : List Str × Node) : Prop :=
  ∃ expected ∈ package.entries,
    ∃ found, source_entry (portable_relative_path entry.1) entry.2 = some found ∧
      { found with mode := expected.mode } = expected

/-- The source of the package is that of its object, the executable bits aside. -/
structure SourceMatches (package : GenerationPackageV1) (below : Tree) : Prop where
  present : ∀ entry ∈ below, source_path package entry → Matched package entry
  complete : ∀ expected ∈ package.entries, ∃ entry ∈ below, source_path package entry ∧
    portable_relative_path entry.1 = expected.path
  cache : ∀ entry ∈ below, ¬reserved entry → portable_relative_path entry.1 ∈ derived_cache package →
    ∃ mode bytes, entry.2 = .File mode bytes

/-- Nothing is passed over but one `.lake` directory at the root. -/
def OnlyRootCache (below : Tree) : Prop :=
  ∀ entry ∈ below, reserved entry → entry.1.head? = some ".lake".toList ∧
    (entry.1.length = 1 → entry.2 = .Directory)

/-- The registered cache is within its bound. -/
def SmallDerivedCache (package : GenerationPackageV1) (below : Tree) : Prop :=
  ∀ entry ∈ below, portable_relative_path entry.1 ∈ derived_cache package → ∀ mode bytes,
    entry.2 = .File mode bytes → bytes.length ≤ 64 * 1024

theorem registered_limits : LeanStoreLimitsV1.registered_provider.maximum_expanded_bytes < 2 ^ 64 ∧
    LeanStoreLimitsV1.registered_provider.maximum_file_bytes < 2 ^ 64 ∧
    LeanStoreLimitsV1.registered_provider.maximum_entries < 2 ^ 64 := by decide

theorem derived_cache_valid {package : GenerationPackageV1} {path : Str}
    (h : path ∈ derived_cache package) : validate_relative_entry_path path = .ok () := by
  unfold derived_cache at h
  by_cases hkey : package.key_scope = "leanprover-community".toList ∧
      package.key_name = "proofwidgets".toList
  · rw [if_pos hkey] at h
    rw [List.mem_singleton.mp h]
    unfold validate_relative_entry_path
    rw [if_neg (by decide), if_neg (by decide), if_neg (by decide)]
  · rw [if_neg hkey] at h
    exact absurd h List.not_mem_nil

section Gate

variable {package : GenerationPackageV1} {place : List Str} {tree : Tree}

/-! ## One path -/

theorem registered_derived_cache_iff {relative : Str} :
    registered_derived_cache package relative = true ↔ relative ∈ derived_cache package := by
  unfold registered_derived_cache derived_cache
  rw [Bool.and_eq_true, Bool.and_eq_true, decide_eq_true_eq, decide_eq_true_eq, decide_eq_true_eq]
  by_cases hkey : package.key_scope = "leanprover-community".toList ∧
      package.key_name = "proofwidgets".toList
  · rw [if_pos hkey, List.mem_singleton, and_iff_right hkey]
  · rw [if_neg hkey]
    exact ⟨fun h => absurd h.1 hkey, fun h => absurd h List.not_mem_nil⟩

/-- A path of the root cache is passed over at any depth. -/
theorem reserved_of_lake {relative : List Str} {node : Node} (hlisting : tree.Listing)
    (hentry : (relative, node) ∈ tree) (hlake : relative.head? = some ".lake".toList) :
    reserved (relative, node) := by
  obtain ⟨hne, hnames⟩ := hlisting.names _ hentry
  show (split '/' (portable_relative_path relative)).any reserved_name = true
  rw [split_portable hne hnames]
  exact List.any_eq_true.mpr ⟨_, List.mem_of_mem_head? hlake, by decide⟩

/-- What the gate asks of one path. -/
structure GateAccepts (package : GenerationPackageV1) (entry : List Str × Node) : Prop where
  root : reserved entry → entry.1.head? = some ".lake".toList ∧
    (entry.1.length = 1 → entry.2 = .Directory)
  cache : ¬reserved entry → portable_relative_path entry.1 ∈ derived_cache package →
    ∃ mode bytes, entry.2 = .File mode bytes ∧ bytes.length ≤ 64 * 1024
  source : source_path package entry → Matched package entry

/-- The entry of the object under a path, if it has one. -/
theorem find_expected (h : PackageDirectory package place tree) {relative : Str} :
    (∀ expected, package.entries.reverse.find? (fun entry => decide (entry.path = relative)) =
        some expected ↔ expected ∈ package.entries ∧ expected.path = relative) := by
  obtain ⟨object, hobject, hentries⟩ := h.planned
  have hsorted := plan_sorted hobject registered_limits.1 hentries
  have hnodup : (package.entries.reverse.map NormalizedTreeEntryV1.path).Nodup := by
    have hkeys := hsorted.nodup
    rw [List.map_reverse, List.nodup_reverse]
    refine List.Nodup.of_map path_key ?_
    rw [List.map_map]
    exact hkeys
  intro expected
  constructor
  · intro hfind
    obtain ⟨hmem, hpath⟩ := find_key_some hfind
    exact ⟨List.mem_reverse.mp hmem, hpath⟩
  · rintro ⟨hmem, rfl⟩
    exact find_key_of_mem hnodup (List.mem_reverse.mpr hmem)

/-- Comparing what lies under a path with the entry of that path. -/
theorem compare_entry_iff (h : PackageDirectory package place tree)
    {entry : List Str × Node} {expected : NormalizedTreeEntryV1} (hexpected : expected ∈ package.entries)
    (hpath : expected.path = portable_relative_path entry.1) :
    ((match expected.kind, entry.2 with
      | .Directory, .Directory => .ok ()
      | .File, .File _ bytes =>
        if bytes.length ≠ expected.size then
          .error (drift "generation package source file size changed")
        else if some (digest bytes) ≠ expected.sha256 then
          .error (drift "generation package source file digest changed")
        else .ok ()
      | _, _ => .error (drift "generation package source entry kind changed") :
      GenerationResult Unit) = .ok ()) ↔ Matched package entry := by
  obtain ⟨object, hobject, hentries⟩ := h.planned
  have hsorted := plan_sorted hobject registered_limits.1 hentries
  have hmatched : Matched package entry ↔
      ∃ found, source_entry (portable_relative_path entry.1) entry.2 = some found ∧
        { found with mode := expected.mode } = expected := by
    constructor
    · rintro ⟨other, hother, found, hsome, hsame⟩
      have heq : other = expected := by
        refine hsorted.eq_of_key _ hother hexpected (congrArg path_key ?_)
        rw [hpath, ← source_entry_path hsome, ← hsame]
      rw [heq] at hsame
      exact ⟨found, hsome, hsame⟩
    · exact fun hfound => ⟨expected, hexpected, hfound⟩
  rw [hmatched, ← hpath]
  obtain ⟨relative, node⟩ := entry
  dsimp only
  rcases plan_entry_shape hobject registered_limits.1 hentries hexpected with hshape | ⟨mode, content, hshape⟩
  · rw [hshape]
    cases node with
    | Directory => exact iff_of_true rfl ⟨_, rfl, rfl⟩
    | File mode bytes =>
      refine iff_of_false (fun h => by cases h) ?_
      rintro ⟨found, hsome, hsame⟩
      rw [← Option.some.inj hsome] at hsame
      cases congrArg NormalizedTreeEntryV1.kind hsame
    | Symlink => exact iff_of_false (fun h => by cases h) fun ⟨_, h, _⟩ => by cases h
    | Special => exact iff_of_false (fun h => by cases h) fun ⟨_, h, _⟩ => by cases h
  · rw [hshape]
    unfold file_entry
    cases node with
    | File other bytes =>
      dsimp only
      by_cases hsize : bytes.length = content.length
      · by_cases hdigest : digest bytes = digest content
        · rw [if_neg (by rw [not_not]; exact hsize), if_neg (by rw [not_not, hdigest])]
          refine iff_of_true rfl ⟨_, rfl, ?_⟩
          unfold file_entry
          dsimp only
          rw [hsize, hdigest]
        · rw [if_neg (by rw [not_not]; exact hsize), if_pos fun heq => hdigest (Option.some.inj heq)]
          refine iff_of_false (fun h => by cases h) ?_
          rintro ⟨found, hsome, hsame⟩
          rw [← Option.some.inj hsome] at hsame
          exact hdigest (Option.some.inj (congrArg NormalizedTreeEntryV1.sha256 hsame))
      · rw [if_pos hsize]
        refine iff_of_false (fun h => by cases h) ?_
        rintro ⟨found, hsome, hsame⟩
        rw [← Option.some.inj hsome] at hsame
        exact hsize (congrArg NormalizedTreeEntryV1.size hsame)
    | Directory =>
      refine iff_of_false (fun h => by cases h) ?_
      rintro ⟨found, hsome, hsame⟩
      rw [← Option.some.inj hsome] at hsame
      cases congrArg NormalizedTreeEntryV1.kind hsame
    | Symlink => exact iff_of_false (fun h => by cases h) fun ⟨_, h, _⟩ => by cases h
    | Special => exact iff_of_false (fun h => by cases h) fun ⟨_, h, _⟩ => by cases h

/-- What the gate says of one path: it passes over the root cache only, bounds the
registered cache, and compares everything else with the entries. -/
theorem verify_source_entry_eq_ok (h : PackageDirectory package place tree)
    {entry : List Str × Node} (hentry : entry ∈ tree.below place) :
    verify_source_entry package entry.1 entry.2 = .ok () ↔ GateAccepts package entry := by
  obtain ⟨object, hobject, hentries⟩ := h.planned
  have hreserved_lake : entry.1.head? = some ".lake".toList → reserved entry :=
    reserved_of_lake (h.listing.below place) hentry
  unfold verify_source_entry
  dsimp only
  by_cases hlake : entry.1.head? = some ".lake".toList
  · have hreserved := hreserved_lake hlake
    rw [if_pos hlake]
    by_cases hroot : entry.1.length = 1 ∧ entry.2 ≠ .Directory
    · rw [if_pos hroot]
      exact iff_of_false (fun h => by cases h) fun hall => hroot.2 ((hall.root hreserved).2 hroot.1)
    · rw [if_neg hroot]
      refine iff_of_true rfl ⟨fun _ => ⟨hlake, fun hone => ?_⟩, fun hno => absurd hreserved hno,
        fun hsource => absurd hreserved hsource.1⟩
      by_contra hnode
      exact hroot ⟨hone, hnode⟩
  rw [if_neg hlake]
  by_cases hcache : portable_relative_path entry.1 ∈ derived_cache package
  · rw [if_pos (registered_derived_cache_iff.mpr hcache)]
    have hfree : ¬reserved entry := by
      unfold reserved
      rw [valid_not_reserved (derived_cache_valid hcache)]
      exact Bool.false_ne_true
    have haccepts : GateAccepts package entry ↔
        ∃ mode bytes, entry.2 = .File mode bytes ∧ bytes.length ≤ 64 * 1024 :=
      ⟨fun hall => hall.cache hfree hcache, fun hfile => ⟨fun hyes => absurd hyes hfree,
        fun _ _ => hfile, fun hsource => absurd hcache hsource.2⟩⟩
    rw [haccepts]
    cases hnode : entry.2 with
    | File mode bytes =>
      dsimp only
      by_cases hsmall : bytes.length ≤ 64 * 1024
      · rw [if_pos hsmall]
        exact iff_of_true rfl ⟨mode, bytes, rfl, hsmall⟩
      · rw [if_neg hsmall]
        refine iff_of_false (fun h => by cases h) ?_
        rintro ⟨_, _, hsame, hle⟩
        cases hsame
        exact hsmall hle
    | Directory => exact iff_of_false (fun h => by cases h) fun ⟨_, _, h, _⟩ => by cases h
    | Symlink => exact iff_of_false (fun h => by cases h) fun ⟨_, _, h, _⟩ => by cases h
    | Special => exact iff_of_false (fun h => by cases h) fun ⟨_, _, h, _⟩ => by cases h
  rw [if_neg (mt registered_derived_cache_iff.mp hcache)]
  cases hfind : package.entries.reverse.find?
      (fun other => decide (other.path = portable_relative_path entry.1)) with
  | none =>
    refine iff_of_false (fun h => by cases h) fun hall => ?_
    by_cases hreserved : reserved entry
    · exact hlake (hall.root hreserved).1
    · obtain ⟨expected, hexpected, found, hsome, hsame⟩ := hall.source ⟨hreserved, hcache⟩
      refine find_key_none.mp hfind expected (List.mem_reverse.mpr hexpected) ?_
      rw [← source_entry_path hsome, ← hsame]
  | some expected =>
    obtain ⟨hexpected, hpath⟩ := (find_expected h expected).mp hfind
    have hfree : ¬reserved entry := by
      have hvalid := (plan_entry_valid hobject registered_limits.1 hentries hexpected).1
      unfold reserved
      rw [← hpath, valid_not_reserved hvalid]
      exact Bool.false_ne_true
    have haccepts : GateAccepts package entry ↔ Matched package entry :=
      ⟨fun hall => hall.source ⟨hfree, hcache⟩, fun hmatched => ⟨fun hyes => absurd hyes hfree,
        fun _ hyes => absurd hyes hcache, fun _ => hmatched⟩⟩
    rw [haccepts]
    exact compare_entry_iff h hexpected hpath

/-! ## The directory -/

/-- **The verdict of the gate.** It accepts exactly the directories whose source
matches, whatever its modes, and where nothing is passed over but a root cache and a
small registered cache. -/
theorem gate_accepts_iff (h : PackageDirectory package place tree) :
    verify_package_source_ignoring_lake_cache package place tree = .ok () ↔
      SourceMatches package (tree.below place) ∧ OnlyRootCache (tree.below place) ∧
        SmallDerivedCache package (tree.below place) := by
  obtain ⟨object, hobject, hentries⟩ := h.planned
  -- the texts that the walk has observed
  have hobserved : ∀ text, text ∈ ((tree.below place).map fun entry => entry.1).filterMap
      (fun relative => if relative.head? = some ".lake".toList ∨
        registered_derived_cache package (portable_relative_path relative) = true then none
        else some (portable_relative_path relative)) ↔
      ∃ entry ∈ tree.below place, ¬(entry.1.head? = some ".lake".toList ∨
        portable_relative_path entry.1 ∈ derived_cache package) ∧
        portable_relative_path entry.1 = text := by
    intro text
    rw [List.mem_filterMap]
    simp only [List.mem_map, registered_derived_cache_iff]
    constructor
    · rintro ⟨_, ⟨entry, hentry, rfl⟩, hsome⟩
      split at hsome
      · cases hsome
      · rename_i hno
        exact ⟨entry, hentry, hno, Option.some.inj hsome⟩
    · rintro ⟨entry, hentry, hno, htext⟩
      exact ⟨entry.1, ⟨entry, hentry, rfl⟩, by rw [if_neg hno, htext]⟩
  have hcomplete : (∀ expected ∈ package.entries, expected.path ∈
      ((tree.below place).map fun entry => entry.1).filterMap
        (fun relative => if relative.head? = some ".lake".toList ∨
          registered_derived_cache package (portable_relative_path relative) = true then none
          else some (portable_relative_path relative))) ↔
      ∀ expected ∈ package.entries, ∃ entry ∈ tree.below place, source_path package entry ∧
        portable_relative_path entry.1 = expected.path := by
    refine forall₂_congr fun expected hexpected => ?_
    rw [hobserved]
    refine exists_congr fun entry => and_congr_right fun hentry => and_congr_left fun htext => ?_
    have hvalid := (plan_entry_valid hobject registered_limits.1 hentries hexpected).1
    have hfree : ¬reserved entry := by
      unfold reserved
      rw [htext, valid_not_reserved hvalid]
      exact Bool.false_ne_true
    have hlake : entry.1.head? ≠ some ".lake".toList := fun hhead =>
      hfree (reserved_of_lake (h.listing.below place) hentry hhead)
    rw [not_or]
    exact ⟨fun hno => ⟨hfree, hno.2⟩, fun hsource => ⟨hlake, hsource.2⟩⟩
  have hchecks : (∃ done, (tree.below place).mapM
      (fun entry => verify_source_entry package entry.1 entry.2) = .ok done) ↔
      ∀ entry ∈ tree.below place, GateAccepts package entry :=
    mapM_checks.trans (forall₂_congr fun _ hentry => verify_source_entry_eq_ok h hentry)
  have hgate : verify_package_source_ignoring_lake_cache package place tree = .ok () ↔
      (∀ entry ∈ tree.below place, GateAccepts package entry) ∧
        ∀ expected ∈ package.entries, ∃ entry ∈ tree.below place, source_path package entry ∧
          portable_relative_path entry.1 = expected.path := by
    unfold verify_package_source_ignoring_lake_cache
    rw [← hchecks, ← hcomplete, ensure_ok h.directory, bind_eq_ok]
    constructor
    · rintro ⟨_, -, hrest⟩
      obtain ⟨done, hdone, hrest⟩ := bind_eq_ok.mp hrest
      obtain ⟨⟨hall⟩, -, -⟩ := bind_eq_ok.mp hrest
      exact ⟨⟨done, hdone⟩, hall⟩
    · rintro ⟨⟨done, hdone⟩, hall⟩
      refine ⟨_, rfl, bind_eq_ok.mpr ⟨done, hdone, bind_eq_ok.mpr ⟨⟨hall⟩, ensure_ok hall _, rfl⟩⟩⟩
  rw [hgate]
  constructor
  · rintro ⟨haccepts, hall⟩
    refine ⟨⟨fun entry hentry => (haccepts entry hentry).source, hall, ?_⟩,
      fun entry hentry => (haccepts entry hentry).root, ?_⟩
    · intro entry hentry hfree hcache
      obtain ⟨mode, bytes, hfile, -⟩ := (haccepts entry hentry).cache hfree hcache
      exact ⟨mode, bytes, hfile⟩
    · intro entry hentry hcache mode bytes hfile
      have hfree : ¬reserved entry := by
        unfold reserved
        rw [valid_not_reserved (derived_cache_valid hcache)]
        exact Bool.false_ne_true
      obtain ⟨_, _, hsame, hsmall⟩ := (haccepts entry hentry).cache hfree hcache
      rw [hfile] at hsame
      cases hsame
      exact hsmall
  · rintro ⟨hsource, hroot, hsmall⟩
    refine ⟨fun entry hentry => ⟨hroot entry hentry, ?_, hsource.present entry hentry⟩,
      hsource.complete⟩
    intro hfree hcache
    obtain ⟨mode, bytes, hfile⟩ := hsource.cache entry hentry hfree hcache
    exact ⟨mode, bytes, hfile, hsmall entry hentry hcache mode bytes hfile⟩

end Gate

end LeanBun.Generation
