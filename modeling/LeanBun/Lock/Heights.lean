/-
What the graph validation accepts.

The depth of a finished package is the length of a trail from it, and it is above the
depths of what the package depends on. So an accepted graph has no cycle and no trail
longer than the limit. The other way round, a visit fails in three places only, and each
of them gives a trail that is too long: at a package in progress there is a cycle, at a
depth above the limit the trail of that depth, and without fuel there would be more
packages in progress than there are.
-/
import LeanBun.Lib.Trails
import LeanBun.Lock.InputOrder
import LeanBun.Lock.Ranked

set_option autoImplicit false

namespace LeanBun.Lock

open LeanBun.Lib LeanBun.Core

/-- The keys of a list of packages. -/
def package_keys (packages : List LockedLeanPackageV1) : List PackageKeyV1 :=
  packages.map LockedLeanPackageV1.key

/-- What the package of a key depends on. -/
def successors (packages : List LockedLeanPackageV1) (key : PackageKeyV1) : List PackageKeyV1 :=
  ((packages.find? fun package => decide (package.key = key)).map
    LockedLeanPackageV1.dependencies).getD []

/-- The same by index. -/
def targets (packages : List LockedLeanPackageV1) (index : ℕ) : List ℕ :=
  (edges packages index).filterMap (index_of packages)

section Trails

variable {packages : List LockedLeanPackageV1}

/-- A trail of indices. -/
abbrev IndexTrail (packages : List LockedLeanPackageV1) : List ℕ → Prop :=
  Trail (List.range packages.length) (targets packages)

/-- A trail that is too long. -/
def TooLong (packages : List LockedLeanPackageV1) : Prop :=
  ∃ trail, IndexTrail packages trail ∧ MAX_GRAPH_DEPTH_V1 < trail.length

theorem closed_range : ClosedRoots (List.range packages.length) (targets packages) := by
  intro index _ target htarget
  obtain ⟨key, -, hkey⟩ := List.mem_filterMap.mp htarget
  exact List.mem_range.mpr (index_of_lt hkey)

theorem IndexTrail.lt {trail : List ℕ} (h : IndexTrail packages trail) {index : ℕ}
    (hindex : index ∈ trail) : index < packages.length :=
  List.mem_range.mp (h.mem_roots closed_range index hindex)

/-- A package in progress that is visited again is on a cycle. -/
theorem too_long_of_progress {index : ℕ} {trail : List ℕ} (h : IndexTrail packages (index :: trail))
    (hprogress : index ∈ trail) : TooLong packages := by
  have hindex : index ∈ List.range packages.length := h.mem_roots closed_range index List.mem_cons_self
  obtain ⟨t, ht, hlong⟩ := trail_of_cycle hindex (h.reaches hprogress) MAX_GRAPH_DEPTH_V1
  exact ⟨index :: t, ht, Nat.lt_succ_of_le hlong⟩

/-- A trail to the package goes on for as many packages as the depth says. -/
def Extends (packages : List LockedLeanPackageV1) (index depth : ℕ) : Prop :=
  ∀ trail, IndexTrail packages (index :: trail) →
    ∃ longer, IndexTrail packages longer ∧ longer.length = trail.length + depth

theorem extends_one (index : ℕ) : Extends packages index 1 :=
  fun trail htrail => ⟨index :: trail, htrail, rfl⟩

theorem Extends.step {index next depth : ℕ} (hnext : next ∈ targets packages index)
    (h : Extends packages next depth) : Extends packages index (1 + depth) := by
  intro trail htrail
  obtain ⟨longer, hlonger, hlength⟩ := h (index :: trail) ⟨hnext, htrail⟩
  refine ⟨longer, hlonger, ?_⟩
  rw [hlength, List.length_cons]
  omega

theorem Extends.max {index a b : ℕ} (ha : Extends packages index a) (hb : Extends packages index b) :
    Extends packages index (max a b) := by
  by_cases hle : a ≤ b
  · rw [max_eq_right hle]
    exact hb
  · rw [max_eq_left (le_of_lt (not_le.mp hle))]
    exact ha

end Trails

/-! ## A visit -/

section Visit

variable {packages : List LockedLeanPackageV1} {trail : List ℕ} {visit : VisitState}

/-- Where a visit begins: the packages in progress are those of the trail, and the depth of
every finished one is that of a trail within the limit. -/
structure Ready (packages : List LockedLeanPackageV1) (trail : List ℕ) (visit : VisitState) :
    Prop where
  sized : Sized packages visit
  progress : ∀ index, visit.state index = 1 ↔ index ∈ trail
  finished : ∀ index, visit.state index = 2 → 1 ≤ visit.depth index ∧
    visit.depth index ≤ MAX_GRAPH_DEPTH_V1 ∧ Extends packages index (visit.depth index)

theorem Ready.enter (h : Ready packages trail visit) {index : ℕ} (hindex : index < packages.length) :
    Ready packages (index :: trail) (visit.enter index) where
  sized := h.sized.enter index
  progress := by
    intro other
    by_cases heq : index = other
    · subst heq
      exact iff_of_true (enter_state h.sized hindex) List.mem_cons_self
    · rw [show (visit.enter index).state other = visit.state other from getD_set_ne heq 1,
        h.progress other, List.mem_cons, or_iff_right (Ne.symm heq)]
  finished := by
    intro other hother
    have hne : index ≠ other := by
      rintro rfl
      rw [enter_state h.sized hindex] at hother
      cases hother
    exact h.finished other ((getD_set_ne hne 1).symm.trans hother)

theorem Ready.finish {index depth : ℕ} (h : Ready packages (index :: trail) visit)
    (hindex : index < packages.length) (hnew : index ∉ trail) (hpos : 1 ≤ depth)
    (hbound : depth ≤ MAX_GRAPH_DEPTH_V1) (hextends : Extends packages index depth) :
    Ready packages trail (visit.finish index depth) where
  sized := h.sized.finish index depth
  progress := by
    intro other
    by_cases heq : index = other
    · subst heq
      refine iff_of_false ?_ hnew
      rw [finish_state h.sized hindex]
      decide
    · rw [show (visit.finish index depth).state other = visit.state other from getD_set_ne heq 2,
        h.progress other, List.mem_cons, or_iff_right (Ne.symm heq)]
  finished := by
    intro other hother
    by_cases heq : index = other
    · subst heq
      rw [finish_depth h.sized hindex]
      exact ⟨hpos, hbound, hextends⟩
    · rw [show (visit.finish index depth).depth other = visit.depth other from getD_set_ne heq depth]
      exact h.finished other ((getD_set_ne heq 2).symm.trans hother)

/-- Packages in progress are different packages. -/
theorem trail_length_le (htrail : IndexTrail packages trail) (hnodup : trail.Nodup) :
    trail.length ≤ packages.length := by
  have hsubset : trail ⊆ List.range packages.length :=
    fun index hindex => List.mem_range.mpr (IndexTrail.lt htrail hindex)
  have hle := (hnodup.subperm hsubset).length_le
  rwa [List.length_range] at hle

/-- What the loop over the dependencies keeps. -/
structure Deepening (packages : List LockedLeanPackageV1) (index : ℕ) (trail : List ℕ)
    (acc : ℕ × VisitState) : Prop where
  ready : Ready packages (index :: trail) acc.2
  positive : 1 ≤ acc.1
  reached : Extends packages index acc.1

/-- **A visit finishes its package or finds a trail that is too long.** -/
theorem visit_graph_outcome (hclosed : ∀ index < packages.length, ∀ dependency ∈ edges packages index,
    (index_of packages dependency).isSome = true) (fuel : ℕ) :
    ∀ {index : ℕ} {trail : List ℕ} {visit : VisitState}, IndexTrail packages (index :: trail) →
    trail.Nodup → Ready packages trail visit → packages.length < fuel + trail.length →
    Outcome (fun result => Ready packages trail result.2 ∧ 1 ≤ result.1 ∧
      Extends packages index result.1) (fun _ => TooLong packages)
      (visit_graph packages fuel index visit) := by
  induction fuel with
  | zero =>
    intro index trail visit htrail hnodup _ hfuel
    have hle := trail_length_le htrail.tail hnodup
    omega
  | succ fuel ih =>
    intro index trail visit htrail hnodup hready hfuel
    have hindex : index < packages.length := IndexTrail.lt htrail List.mem_cons_self
    rw [visit_graph]
    by_cases hone : visit.state index = 1
    · rw [if_pos (show visit.states.getD index 0 = 1 from hone)]
      exact too_long_of_progress htrail ((hready.progress index).mp hone)
    rw [if_neg (show ¬visit.states.getD index 0 = 1 from hone)]
    by_cases htwo : visit.state index = 2
    · rw [if_pos (show visit.states.getD index 0 = 2 from htwo)]
      obtain ⟨hpos, -, hextends⟩ := hready.finished index htwo
      exact ⟨hready, hpos, hextends⟩
    rw [if_neg (show ¬visit.states.getD index 0 = 2 from htwo)]
    have hnew : index ∉ trail := fun hmem => hone ((hready.progress index).mpr hmem)
    refine Outcome.bind (M := fun acc => Deepening packages index trail acc) ?_ fun acc hacc => ?_
    · -- the loop over the dependencies
      refine foldlM_outcome (fun _ acc => Deepening packages index trail acc) ?_
        ⟨hready.enter hindex, le_refl 1, extends_one index⟩
      intro processed dependency acc hpre hacc
      have hdependency : dependency ∈ edges packages index :=
        hpre.subset (List.mem_append_right processed List.mem_cons_self)
      obtain ⟨next, hnext⟩ := Option.isSome_iff_exists.mp (hclosed index hindex dependency hdependency)
      have htarget : next ∈ targets packages index := List.mem_filterMap.mpr ⟨_, hdependency, hnext⟩
      rw [hnext]
      have hlonger : IndexTrail packages (next :: index :: trail) := ⟨htarget, htrail⟩
      refine (ih hlonger (List.nodup_cons.mpr ⟨hnew, hnodup⟩) hacc.ready
        (by rw [List.length_cons]; omega)).bind fun result hresult => ?_
      obtain ⟨hready', -, hextends⟩ := hresult
      exact ⟨hready', le_trans hacc.positive (le_max_left _ _),
        hacc.reached.max (hextends.step htarget)⟩
    dsimp only
    by_cases hdeep : MAX_GRAPH_DEPTH_V1 < acc.1
    · rw [if_pos hdeep]
      obtain ⟨longer, hlonger, hlength⟩ := hacc.reached trail htrail
      exact ⟨longer, hlonger, by omega⟩
    · rw [if_neg hdeep]
      exact ⟨hacc.ready.finish hindex hnew hacc.positive (not_lt.mp hdeep) hacc.reached,
        hacc.positive, hacc.reached⟩

/-- The loop over all packages. -/
theorem visit_all_outcome (hclosed : ∀ index < packages.length, ∀ dependency ∈ edges packages index,
    (index_of packages dependency).isSome = true) :
    Outcome (Ready packages []) (fun _ => TooLong packages) (visit_all packages) := by
  refine foldlM_outcome (fun _ visit => Ready packages [] visit) ?_ ⟨⟨List.length_replicate,
    List.length_replicate⟩, fun index => ?_, fun index hindex => ?_⟩
  · intro processed index visit hpre hready
    have hindex : index ∈ List.range packages.length :=
      hpre.subset (List.mem_append_right processed List.mem_cons_self)
    have htrail : IndexTrail packages [index] := ⟨hindex, trivial⟩
    refine (visit_graph_outcome hclosed _ htrail List.nodup_nil hready
      (by rw [List.length_nil]; omega)).bind fun result hresult => ?_
    exact hresult.1
  · refine iff_of_false (fun hone => ?_) List.not_mem_nil
    have hzero : (List.replicate packages.length 0).getD index 0 = 1 := hone
    rw [start_state] at hzero
    cases hzero
  · have htwo : (List.replicate packages.length 0).getD index 0 = 2 := hindex
    rw [start_state] at htwo
    cases htwo

end Visit

/-! ## The graph by its keys -/

section Keys

variable {packages packages' : List LockedLeanPackageV1}

theorem successors_of_mem (hdistinct : (package_keys packages).Nodup) {package : LockedLeanPackageV1}
    (hpackage : package ∈ packages) : successors packages package.key = package.dependencies := by
  unfold successors
  rw [find_key_of_mem hdistinct hpackage]
  rfl

theorem mem_package_keys {key : PackageKeyV1} :
    key ∈ package_keys packages ↔ ∃ package ∈ packages, package.key = key := List.mem_map

theorem index_of_isSome {key : PackageKeyV1} :
    (index_of packages key).isSome = true ↔ key ∈ package_keys packages := by
  unfold index_of
  rw [List.findIdx?_isSome, List.any_eq_true, mem_package_keys]
  simp only [decide_eq_true_eq]

/-- The key of a package, by index. -/
def key_at (packages : List LockedLeanPackageV1) (index : ℕ) : Option PackageKeyV1 :=
  packages[index]?.map LockedLeanPackageV1.key

/-- A trail of indices is one of keys. -/
theorem key_trail (hdistinct : (package_keys packages).Nodup) {trail : List ℕ}
    (h : IndexTrail packages trail) : ∃ keys,
      Trail (package_keys packages) (successors packages) keys ∧ keys.length = trail.length ∧
      keys.head? = trail.head?.bind (key_at packages) := by
  induction trail with
  | nil => exact ⟨[], trivial, rfl, rfl⟩
  | cons index trail ih =>
    obtain ⟨keys, hkeys, hlength, hhead⟩ := ih h.tail
    have hindex : index < packages.length := IndexTrail.lt h List.mem_cons_self
    have hat : key_at packages index = some packages[index].key := by
      unfold key_at
      rw [List.getElem?_eq_getElem hindex]
      rfl
    refine ⟨packages[index].key :: keys, ⟨?_, hkeys⟩, by rw [List.length_cons, hlength, List.length_cons],
      by rw [List.head?_cons, List.head?_cons, Option.bind_some, hat]⟩
    cases trail with
    | nil =>
      rw [List.length_eq_zero_iff.mp hlength]
      exact mem_package_keys.mpr ⟨_, List.getElem_mem hindex, rfl⟩
    | cons parent trail =>
      have hparent : parent < packages.length := IndexTrail.lt h.tail List.mem_cons_self
      have hparent_at : key_at packages parent = some packages[parent].key := by
        unfold key_at
        rw [List.getElem?_eq_getElem hparent]
        rfl
      rw [List.head?_cons, Option.bind_some, hparent_at] at hhead
      obtain ⟨rest, rfl⟩ := List.head?_eq_some_iff.mp hhead
      have htarget : index ∈ targets packages parent := h.1
      obtain ⟨dependency, hdependency, hfound⟩ := List.mem_filterMap.mp htarget
      obtain ⟨_, hkey, -⟩ := List.findIdx?_eq_some_iff_getElem.mp hfound
      show packages[index].key ∈ successors packages packages[parent].key
      rw [successors_of_mem hdistinct (List.getElem_mem hparent), of_decide_eq_true hkey]
      rwa [edges, List.getElem?_eq_getElem hparent] at hdependency

/-- **The graph validation.** It accepts the packages exactly when every dependency is one
of them, there is no cycle, and no chain of dependencies is longer than the limit. -/
theorem validate_graph_iff (hdistinct : (package_keys packages).Nodup) :
    validate_graph packages = .ok () ↔
      BoundedGraph (package_keys packages) (successors packages) MAX_GRAPH_DEPTH_V1 := by
  rw [validate_graph_eq_ok]
  constructor
  · rintro ⟨hedges, visit, hvisit⟩
    have hclosed : ∀ index < packages.length, ∀ dependency ∈ edges packages index,
        (index_of packages dependency).isSome = true := by
      intro index hindex dependency hdependency
      rw [edges, List.getElem?_eq_getElem hindex] at hdependency
      exact hedges _ (List.getElem_mem hindex) dependency hdependency
    have hready := visit_all_outcome hclosed
    rw [hvisit] at hready
    obtain ⟨hsettled, hfinished⟩ := visit_all_settled hvisit
    have hranks := depths_rank hdistinct hsettled hfinished
    have hdepth : ∀ key ∈ package_keys packages, 1 ≤ depth_of packages visit key ∧
        depth_of packages visit key ≤ MAX_GRAPH_DEPTH_V1 := by
      intro key hkey
      obtain ⟨index, hindex⟩ := Option.isSome_iff_exists.mp (index_of_isSome.mpr hkey)
      obtain ⟨hpos, hbound, -⟩ := hready.finished index (hfinished index (index_of_lt hindex))
      unfold depth_of
      rw [hindex]
      exact ⟨hpos, hbound⟩
    have hdown : ∀ a ∈ package_keys packages, ∀ b ∈ successors packages a,
        b ∈ package_keys packages ∧ depth_of packages visit b < depth_of packages visit a := by
      intro a ha b hb
      obtain ⟨package, hpackage, rfl⟩ := mem_package_keys.mp ha
      rw [successors_of_mem hdistinct hpackage] at hb
      obtain ⟨htarget, hlt⟩ := hranks package hpackage b hb
      exact ⟨mem_package_keys.mpr htarget, hlt⟩
    refine ⟨fun a ha b hb => (hdown a ha b hb).1, fun a hcycle => ?_, fun trail htrail => ?_⟩
    · -- what is on a cycle depends on something, so it is a package
      have ha : a ∈ package_keys packages := by
        obtain ⟨b, hstep, -⟩ := Relation.TransGen.head'_iff.mp hcycle
        by_contra hnot
        have hnone : packages.find? (fun package => decide (package.key = a)) = none :=
          find_key_none.mpr fun package hpackage hkey => hnot (mem_package_keys.mpr ⟨_, hpackage, hkey⟩)
        unfold Arc successors at hstep
        rw [hnone] at hstep
        exact absurd hstep List.not_mem_nil
      exact lt_irrefl _ (not_cycle_of_rank hdown ha hcycle).2
    · cases trail with
      | nil => exact Nat.zero_le _
      | cons a trail =>
        obtain ⟨ha, hlength⟩ := htrail.length_le (fun key hkey => (hdepth key hkey).2) hdown
        have hpos := (hdepth a ha).1
        rw [List.length_cons]
        omega
  · rintro ⟨hclosed, -, hbounded⟩
    have hedges : ∀ package ∈ packages, ∀ dependency ∈ package.dependencies,
        (index_of packages dependency).isSome = true := by
      intro package hpackage dependency hdependency
      rw [index_of_isSome]
      refine hclosed package.key (mem_package_keys.mpr ⟨package, hpackage, rfl⟩) dependency ?_
      rwa [successors_of_mem hdistinct hpackage]
    refine ⟨hedges, ?_⟩
    have houtcome : Outcome (Ready packages []) (fun _ => TooLong packages) (visit_all packages) := by
      refine visit_all_outcome fun index hindex dependency hdependency => ?_
      rw [edges, List.getElem?_eq_getElem hindex] at hdependency
      exact hedges _ (List.getElem_mem hindex) dependency hdependency
    cases hvisit : visit_all packages with
    | ok visit => exact ⟨visit, rfl⟩
    | error e =>
      -- every failure comes with a trail that is too long
      rw [hvisit] at houtcome
      obtain ⟨trail, htrail, hlong⟩ := houtcome
      obtain ⟨keys, hkeys, hlength, -⟩ := key_trail hdistinct htrail
      have hle := hbounded keys hkeys
      omega

theorem isOk_unit {ε : Type} {x : Except ε Unit} : x.isOk = true ↔ x = .ok () := by
  cases x with
  | error e => exact iff_of_false Bool.false_ne_true (fun h => by cases h)
  | ok u => exact iff_of_true rfl rfl

/-- The graph of the keys does not depend on the order of the packages. -/
theorem bounded_graph_perm (h : packages.Perm packages') (hdistinct : (package_keys packages).Nodup)
    {bound : ℕ} (hgraph : BoundedGraph (package_keys packages) (successors packages) bound) :
    BoundedGraph (package_keys packages') (successors packages') bound := by
  have hkeys : (package_keys packages).Perm (package_keys packages') := h.map _
  have hsucc : successors packages' = successors packages := by
    funext key
    by_cases hkey : key ∈ package_keys packages
    · obtain ⟨package, hpackage, rfl⟩ := mem_package_keys.mp hkey
      rw [successors_of_mem hdistinct hpackage,
        successors_of_mem (hkeys.nodup_iff.mp hdistinct) (h.mem_iff.mp hpackage)]
    · have hnone : ∀ {list : List LockedLeanPackageV1}, key ∉ package_keys list →
          successors list key = [] := by
        intro list hnot
        unfold successors
        rw [find_key_none.mpr fun package hpackage heq =>
          hnot (mem_package_keys.mpr ⟨package, hpackage, heq⟩)]
        rfl
      rw [hnone hkey, hnone fun hin => hkey (hkeys.mem_iff.mpr hin)]
  have htrail : ∀ {trail : List PackageKeyV1},
      Trail (package_keys packages') (successors packages') trail →
        Trail (package_keys packages) (successors packages) trail := by
    intro trail htrail
    induction trail with
    | nil => exact trivial
    | cons key trail ih =>
      refine ⟨?_, ih htrail.tail⟩
      cases trail with
      | nil => exact hkeys.mem_iff.mpr htrail.1
      | cons parent trail =>
        have hnext : key ∈ successors packages' parent := htrail.1
        rwa [hsucc] at hnext
  refine ⟨fun a ha b hb => ?_, ?_, fun trail ht => hgraph.bounded trail (htrail ht)⟩
  · rw [hsucc] at hb
    exact hkeys.mem_iff.mp (hgraph.closed a (hkeys.mem_iff.mpr ha) b hb)
  · rw [hsucc]
    exact hgraph.acyclic

/-- **The verdict on a graph.** For packages with different keys, the graph validation
accepts exactly the closed graphs without a cycle and without a chain of more packages than
the limit, in every order of the packages; and a lock whose other arguments are valid is
made of the packages exactly then. -/
theorem graph_verdict (packages : List LockedLeanPackageV1)
    (hdistinct : (package_keys packages).Nodup) :
    ((validate_graph packages).isOk = true ↔
      BoundedGraph (package_keys packages) (successors packages) MAX_GRAPH_DEPTH_V1) ∧
    (∀ packages', packages.Perm packages' →
      (validate_graph packages').isOk = (validate_graph packages).isOk) ∧
    ∀ (lean_toolchain lean_compiler_githash lake_version : Str)
      (root_config_sha256 root_declaration_sha256 : Sha256),
      valid_atom lean_toolchain MAX_TEXT_BYTES false = true →
      valid_git_revision lean_compiler_githash = true →
      valid_atom lake_version MAX_NAME_BYTES false = true →
      packages.length ≤ MAX_LOCK_PACKAGES_V1 →
      ∀ packages', packages.Perm packages' →
      ((LeanBunLockV1.new lean_toolchain lean_compiler_githash lake_version root_config_sha256
          root_declaration_sha256 packages').isOk = true ↔
        BoundedGraph (package_keys packages) (successors packages) MAX_GRAPH_DEPTH_V1) := by
  have hverdict : ∀ packages', packages.Perm packages' →
      ((validate_graph packages').isOk = true ↔
        BoundedGraph (package_keys packages) (successors packages) MAX_GRAPH_DEPTH_V1) := by
    intro packages' hperm
    have hkeys : (package_keys packages).Perm (package_keys packages') := hperm.map _
    have hdistinct' := hkeys.nodup_iff.mp hdistinct
    rw [isOk_unit, validate_graph_iff hdistinct']
    exact ⟨bounded_graph_perm hperm.symm hdistinct', bounded_graph_perm hperm hdistinct⟩
  refine ⟨hverdict packages (List.Perm.refl _), fun packages' hperm => ?_, ?_⟩
  · rw [Bool.eq_iff_iff, hverdict packages' hperm, hverdict packages (List.Perm.refl _)]
  · intro toolchain githash lake config declaration htoolchain hgithash hlake hcount packages' hperm
    have hsorted : packages.Perm (sort_by_key LockedLeanPackageV1.key packages) :=
      (sort_by_key_perm _ _).symm
    rw [← LeanBunLockV1.new_perm toolchain githash lake config declaration hperm,
      ← hverdict _ hsorted, isOk_unit]
    have hadj : adjacent_equal LockedLeanPackageV1.key
        (sort_by_key LockedLeanPackageV1.key packages) = false :=
      (adjacent_equal_sort_iff _).mpr hdistinct
    simp only [LeanBunLockV1.new, validate_atom_ok htoolchain, validate_git_revision_ok hgithash,
      validate_atom_ok hlake, require_ok hcount, require_ok hadj, bind, Except.bind]
    split
    · next e he =>
      rw [he]
      exact iff_of_false Bool.false_ne_true (fun h => by cases h)
    · next hok => exact iff_of_true rfl hok

/-- The packages of the sample: `c` depends on `d` and `e`. -/
theorem graph_verdict_sample : ∃ packages, sample_inputs.mapM PackageInput.locked = .ok packages ∧
    package_keys packages = [sample_key_c, sample_key_d, sample_key_e] ∧
    ((validate_graph packages).isOk = true ↔
      BoundedGraph (package_keys packages) (successors packages) MAX_GRAPH_DEPTH_V1) := by
  have hkeys : (sample_inputs.mapM PackageInput.locked).map package_keys =
      .ok [sample_key_c, sample_key_d, sample_key_e] := by decide +kernel
  cases hpackages : sample_inputs.mapM PackageInput.locked with
  | error e =>
    rw [hpackages] at hkeys
    cases hkeys
  | ok packages =>
    rw [hpackages] at hkeys
    have hsame : package_keys packages = [sample_key_c, sample_key_d, sample_key_e] :=
      Except.ok.inj hkeys
    have hdistinct : (package_keys packages).Nodup := by
      rw [hsame]
      decide
    exact ⟨packages, rfl, hsame, (graph_verdict packages hdistinct).1⟩

end Keys

end LeanBun.Lock
