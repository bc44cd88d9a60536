/-
An accepted dependency graph has no cycle.

`validate_graph` visits every package, and a visit gives its package a depth above the
depths of its dependencies. Kept as a fact about the vectors of the traversal, this is
an invariant of every visit: what is finished stays finished under its depth, what is in
progress stays in progress, and every finished package lies above its dependencies. At
the end every package is finished, so the depths rank the whole graph.
-/
import LeanBun.Lock.Graph

set_option autoImplicit false

namespace LeanBun.Lock

open LeanBun.Lib

/-- The state of a package in the traversal. -/
def VisitState.state (visit : VisitState) (index : ℕ) : ℕ := visit.states.getD index 0

/-- The depth of a package in the traversal. -/
def VisitState.depth (visit : VisitState) (index : ℕ) : ℕ := visit.depths.getD index 0

/-- The dependencies of the package at an index. -/
def edges (packages : List LockedLeanPackageV1) (index : ℕ) : List PackageKeyV1 :=
  (packages[index]?.map (·.dependencies)).getD []

section Visit

variable {packages : List LockedLeanPackageV1} {visit visit' : VisitState}

/-- One entry in each vector for every package. -/
def Sized (packages : List LockedLeanPackageV1) (visit : VisitState) : Prop :=
  visit.states.length = packages.length ∧ visit.depths.length = packages.length

/-- A dependency that is finished below a depth. -/
def FinishedBelow (packages : List LockedLeanPackageV1) (visit : VisitState) (bound : ℕ)
    (dependency : PackageKeyV1) : Prop :=
  ∃ index, index_of packages dependency = some index ∧ visit.state index = 2 ∧
    visit.depth index < bound

/-- Every finished package lies above its dependencies. -/
def Settled (packages : List LockedLeanPackageV1) (visit : VisitState) : Prop :=
  ∀ index, visit.state index = 2 →
    ∀ dependency ∈ edges packages index, FinishedBelow packages visit (visit.depth index) dependency

/-- What a visit leaves as it was. -/
structure Keeps (visit visit' : VisitState) : Prop where
  finished : ∀ index, visit.state index = 2 →
    visit'.state index = 2 ∧ visit'.depth index = visit.depth index
  in_progress : ∀ index, visit.state index = 1 → visit'.state index = 1

theorem Keeps.refl (visit : VisitState) : Keeps visit visit :=
  ⟨fun _ h => ⟨h, rfl⟩, fun _ h => h⟩

theorem Keeps.trans {visit'' : VisitState} (h : Keeps visit visit') (h' : Keeps visit' visit'') :
    Keeps visit visit'' := by
  refine ⟨fun index hindex => ?_, fun index hindex => h'.in_progress _ (h.in_progress _ hindex)⟩
  obtain ⟨hstate, hdepth⟩ := h.finished index hindex
  obtain ⟨hstate', hdepth'⟩ := h'.finished index hstate
  exact ⟨hstate', hdepth'.trans hdepth⟩

theorem FinishedBelow.keeps {bound : ℕ} {dependency : PackageKeyV1}
    (h : FinishedBelow packages visit bound dependency) (hkeeps : Keeps visit visit') :
    FinishedBelow packages visit' bound dependency := by
  obtain ⟨index, hindex, hstate, hdepth⟩ := h
  obtain ⟨hstate', hdepth'⟩ := hkeeps.finished index hstate
  exact ⟨index, hindex, hstate', by rw [hdepth']; exact hdepth⟩

theorem FinishedBelow.mono {bound bound' : ℕ} {dependency : PackageKeyV1}
    (h : FinishedBelow packages visit bound dependency) (hle : bound ≤ bound') :
    FinishedBelow packages visit bound' dependency := by
  obtain ⟨index, hindex, hstate, hdepth⟩ := h
  exact ⟨index, hindex, hstate, lt_of_lt_of_le hdepth hle⟩

theorem index_of_lt {key : PackageKeyV1} {index : ℕ} (h : index_of packages key = some index) :
    index < packages.length :=
  (List.findIdx?_eq_some_iff_findIdx_eq.mp h).1

/-- Marking a package as entered. -/
def VisitState.enter (visit : VisitState) (index : ℕ) : VisitState :=
  { visit with states := visit.states.set index 1 }

/-- Marking a package as finished at a depth. -/
def VisitState.finish (visit : VisitState) (index depth : ℕ) : VisitState :=
  ⟨visit.states.set index 2, visit.depths.set index depth⟩

theorem getD_set_self {l : List ℕ} {index : ℕ} (h : index < l.length) (value : ℕ) :
    (l.set index value).getD index 0 = value := by
  rw [List.getD_eq_getElem _ _ (by rw [List.length_set]; exact h), List.getElem_set_self]

theorem getD_set_ne {l : List ℕ} {index other : ℕ} (h : index ≠ other) (value : ℕ) :
    (l.set index value).getD other 0 = l.getD other 0 := by
  rw [List.getD_eq_getElem?_getD, List.getD_eq_getElem?_getD, List.getElem?_set_ne h]

theorem Sized.enter (h : Sized packages visit) (index : ℕ) : Sized packages (visit.enter index) :=
  ⟨by rw [VisitState.enter, List.length_set]; exact h.1, h.2⟩

theorem Sized.finish (h : Sized packages visit) (index depth : ℕ) :
    Sized packages (visit.finish index depth) :=
  ⟨by rw [VisitState.finish, List.length_set]; exact h.1,
    by rw [VisitState.finish, List.length_set]; exact h.2⟩

section Entering

variable {index : ℕ} (hsized : Sized packages visit) (hindex : index < packages.length)

include hsized hindex

theorem enter_state : (visit.enter index).state index = 1 :=
  getD_set_self (by rw [hsized.1]; exact hindex) 1

theorem finish_state (depth : ℕ) : (visit.finish index depth).state index = 2 :=
  getD_set_self (by rw [hsized.1]; exact hindex) 2

theorem finish_depth (depth : ℕ) : (visit.finish index depth).depth index = depth :=
  getD_set_self (by rw [hsized.2]; exact hindex) depth

end Entering

/-- Entering a package that is neither in progress nor finished. -/
theorem keeps_enter {index : ℕ} (hone : visit.state index ≠ 1) (htwo : visit.state index ≠ 2) :
    Keeps visit (visit.enter index) := by
  refine ⟨fun other hother => ?_, fun other hother => ?_⟩
  · have hne : index ≠ other := fun heq => htwo (heq ▸ hother)
    exact ⟨(getD_set_ne hne 1).trans hother, rfl⟩
  · have hne : index ≠ other := fun heq => hone (heq ▸ hother)
    exact (getD_set_ne hne 1).trans hother

theorem Settled.enter {index : ℕ} (h : Settled packages visit) (hsized : Sized packages visit)
    (hindex : index < packages.length) (hone : visit.state index ≠ 1)
    (htwo : visit.state index ≠ 2) : Settled packages (visit.enter index) := by
  intro other hother dependency hdependency
  have hne : index ≠ other := by
    rintro rfl
    rw [enter_state hsized hindex] at hother
    cases hother
  have hbefore : visit.state other = 2 := (getD_set_ne hne 1).symm.trans hother
  exact (h other hbefore dependency hdependency).keeps (keeps_enter hone htwo)

/-- Finishing a package in progress whose dependencies are finished below its depth. -/
theorem Settled.finish {index depth : ℕ} (h : Settled packages visit) (hsized : Sized packages visit)
    (hindex : index < packages.length) (hone : visit.state index = 1)
    (hbelow : ∀ dependency ∈ edges packages index, FinishedBelow packages visit depth dependency) :
    Settled packages (visit.finish index depth) := by
  have hold : ∀ {bound : ℕ} {dependency : PackageKeyV1},
      FinishedBelow packages visit bound dependency →
        FinishedBelow packages (visit.finish index depth) bound dependency := by
    rintro bound dependency ⟨other, hother, hstate, hdepth⟩
    have hne : index ≠ other := by
      rintro rfl
      rw [hone] at hstate
      cases hstate
    refine ⟨other, hother, (getD_set_ne hne 2).trans hstate, ?_⟩
    rw [show (visit.finish index depth).depth other = visit.depth other from getD_set_ne hne depth]
    exact hdepth
  intro other hother dependency hdependency
  by_cases heq : index = other
  · subst heq
    rw [finish_depth hsized hindex]
    exact hold (hbelow dependency hdependency)
  · have hbefore : visit.state other = 2 := (getD_set_ne heq 2).symm.trans hother
    rw [show (visit.finish index depth).depth other = visit.depth other from getD_set_ne heq depth]
    exact hold (h other hbefore dependency hdependency)

/-- Finishing a package in progress. -/
theorem keeps_finish {entered : VisitState} {index depth : ℕ} (hentered : Keeps visit entered)
    (hone : visit.state index ≠ 1) (htwo : visit.state index ≠ 2) :
    Keeps visit (entered.finish index depth) := by
  refine ⟨fun other hother => ?_, fun other hother => ?_⟩
  · have hne : index ≠ other := fun heq => htwo (heq ▸ hother)
    obtain ⟨hstate, hdepth⟩ := hentered.finished other hother
    exact ⟨(getD_set_ne hne 2).trans hstate, (getD_set_ne hne depth).trans hdepth⟩
  · have hne : index ≠ other := fun heq => hone (heq ▸ hother)
    exact (getD_set_ne hne 2).trans (hentered.in_progress other hother)

end Visit

/-! ## A visit -/

section VisitGraph

variable {packages : List LockedLeanPackageV1}

/-- What a successful visit of a package at an index leaves. -/
structure Visited (packages : List LockedLeanPackageV1) (visit : VisitState) (index depth : ℕ)
    (visit' : VisitState) : Prop where
  sized : Sized packages visit'
  settled : Settled packages visit'
  keeps : Keeps visit visit'
  finished : visit'.state index = 2
  depth_eq : visit'.depth index = depth

/-- What the loop over the dependencies keeps, after some of them: the accumulated depth is
above every dependency that was visited. -/
structure Below (packages : List LockedLeanPackageV1) (entered : VisitState)
    (processed : List PackageKeyV1) (acc : ℕ × VisitState) : Prop where
  sized : Sized packages acc.2
  settled : Settled packages acc.2
  keeps : Keeps entered acc.2
  below : ∀ dependency ∈ processed, FinishedBelow packages acc.2 acc.1 dependency

/-- **A visit finishes its package above its dependencies.** -/
theorem visit_graph_spec (fuel : ℕ) : ∀ {index depth : ℕ} {visit visit' : VisitState},
    index < packages.length → Sized packages visit → Settled packages visit →
    visit_graph packages fuel index visit = .ok (depth, visit') →
    Visited packages visit index depth visit' := by
  induction fuel with
  | zero =>
    intro index depth visit visit' _ _ _ h
    cases h
  | succ fuel ih =>
    intro index depth visit visit' hindex hsized hsettled h
    rw [visit_graph] at h
    by_cases hone : visit.state index = 1
    · rw [if_pos (show visit.states.getD index 0 = 1 from hone)] at h
      cases h
    rw [if_neg (show ¬visit.states.getD index 0 = 1 from hone)] at h
    by_cases htwo : visit.state index = 2
    · rw [if_pos (show visit.states.getD index 0 = 2 from htwo)] at h
      cases h
      exact ⟨hsized, hsettled, Keeps.refl visit, htwo, rfl⟩
    rw [if_neg (show ¬visit.states.getD index 0 = 2 from htwo)] at h
    obtain ⟨⟨above, after⟩, hfold, h⟩ := bind_eq_ok.mp h
    dsimp only at h
    by_cases hdeep : MAX_GRAPH_DEPTH_V1 < above
    · rw [if_pos hdeep] at h
      cases h
    rw [if_neg hdeep] at h
    cases h
    -- The package is in progress while the loop visits what it depends on.
    have hentered : Keeps visit (visit.enter index) := keeps_enter hone htwo
    have hbelow : Below packages (visit.enter index) (edges packages index) (depth, after) := by
      refine foldlM_invariant (Below packages (visit.enter index)) ?_ ?_ hfold
      · intro processed dependency acc acc' _ hacc hstep
        cases hnext : index_of packages dependency with
        | none =>
          rw [hnext] at hstep
          cases hstep
        | some next =>
          rw [hnext] at hstep
          obtain ⟨⟨below, visited⟩, hvisit, hstep⟩ := bind_eq_ok.mp hstep
          cases hstep
          have hspec := ih (index_of_lt hnext) hacc.sized hacc.settled hvisit
          refine ⟨hspec.sized, hspec.settled, hacc.keeps.trans hspec.keeps, ?_⟩
          intro other hother
          rcases List.mem_append.mp hother with hother | hother
          · exact ((hacc.below other hother).keeps hspec.keeps).mono (le_max_left _ _)
          · rw [List.mem_singleton] at hother
            subst hother
            refine ⟨next, hnext, hspec.finished, ?_⟩
            rw [hspec.depth_eq]
            show below < max acc.1 (1 + below)
            omega
      · exact ⟨hsized.enter index, hsettled.enter hsized hindex hone htwo, Keeps.refl _,
          fun dependency hdependency => absurd hdependency List.not_mem_nil⟩
    have hprogress : after.state index = 1 :=
      hbelow.keeps.in_progress index (enter_state hsized hindex)
    exact ⟨hbelow.sized.finish index depth,
      hbelow.settled.finish hbelow.sized hindex hprogress hbelow.below,
      keeps_finish (hentered.trans hbelow.keeps) hone htwo,
      finish_state hbelow.sized hindex depth, finish_depth hbelow.sized hindex depth⟩

end VisitGraph

/-! ## The whole graph -/

section Whole

variable {packages : List LockedLeanPackageV1}

/-- The loop over all packages. -/
def visit_all (packages : List LockedLeanPackageV1) : LockResult VisitState :=
  (List.range packages.length).foldlM (fun visit index => do
    let (_, visit) ← visit_graph packages (packages.length + 1) index visit
    return visit) ⟨List.replicate packages.length 0, List.replicate packages.length 0⟩

/-- Nothing has been visited at the start. -/
theorem start_state (index : ℕ) : (List.replicate packages.length 0).getD index 0 = 0 := by
  by_cases hlt : index < packages.length
  · rw [List.getD_eq_getElem _ _ (by rw [List.length_replicate]; exact hlt), List.getElem_replicate]
  · rw [List.getD_eq_default _ _ (by rw [List.length_replicate]; exact not_lt.mp hlt)]

/-- The check is the one of the edges and the loop. -/
theorem validate_graph_eq_ok : validate_graph packages = .ok () ↔
    (∀ package ∈ packages, ∀ dependency ∈ package.dependencies,
      (index_of packages dependency).isSome = true) ∧ ∃ visit, visit_all packages = .ok visit := by
  unfold validate_graph
  constructor
  · intro h
    obtain ⟨hclosed, -, h⟩ := bind_eq_ok.mp h
    obtain ⟨visit, hfold, -⟩ := bind_eq_ok.mp h
    exact ⟨hclosed.down, visit, hfold⟩
  · rintro ⟨hclosed, visit, hfold⟩
    exact bind_eq_ok.mpr ⟨_, require_ok hclosed _ _, bind_eq_ok.mpr ⟨visit, hfold, rfl⟩⟩

/-- The loop over all packages finishes all of them. -/
theorem visit_all_settled {visit : VisitState} (h : visit_all packages = .ok visit) :
    Settled packages visit ∧ ∀ index < packages.length, visit.state index = 2 := by
  have hall := foldlM_invariant
    (fun (processed : List ℕ) (visit : VisitState) => Sized packages visit ∧
      Settled packages visit ∧ ∀ index ∈ processed, visit.state index = 2) ?_ ?_ h
  · obtain ⟨-, hsettled, hfinished⟩ := hall
    exact ⟨hsettled, fun index hindex => hfinished index (List.mem_range.mpr hindex)⟩
  · rintro processed index before after hprefix ⟨hsized, hsettled, hfinished⟩ hstep
    obtain ⟨⟨depth, visited⟩, hvisit, hstep⟩ := bind_eq_ok.mp hstep
    cases hstep
    have hmem := hprefix.subset (List.mem_append_right processed List.mem_cons_self)
    have hindex : index < packages.length := List.mem_range.mp hmem
    have hspec := visit_graph_spec _ hindex hsized hsettled hvisit
    refine ⟨hspec.sized, hspec.settled, fun other hother => ?_⟩
    rcases List.mem_append.mp hother with hother | hother
    · exact (hspec.keeps.finished other (hfinished other hother)).1
    · rw [List.mem_singleton.mp hother]
      exact hspec.finished
  · refine ⟨⟨List.length_replicate, List.length_replicate⟩, fun index hindex => ?_,
      fun index hindex => absurd hindex List.not_mem_nil⟩
    have htwo : (List.replicate packages.length 0).getD index 0 = 2 := hindex
    rw [start_state] at htwo
    cases htwo

/-- A package is found under its key. -/
theorem index_of_self (hdistinct : (packages.map LockedLeanPackageV1.key).Nodup) {index : ℕ}
    (hindex : index < packages.length) : index_of packages packages[index].key = some index := by
  rw [index_of, List.findIdx?_eq_some_iff_getElem]
  refine ⟨hindex, decide_eq_true rfl, fun other hother heq => ?_⟩
  have hlt : other < packages.length := lt_trans hother hindex
  have hsame : packages[other] = packages[index] := List.inj_on_of_nodup_map hdistinct
    (List.getElem_mem hlt) (List.getElem_mem hindex) (of_decide_eq_true heq)
  have hindices : other = index := (hdistinct.of_map _).getElem_inj_iff.mp hsame
  omega

/-- The depth under which a key is finished. -/
def depth_of (packages : List LockedLeanPackageV1) (visit : VisitState) (key : PackageKeyV1) : ℕ :=
  ((index_of packages key).map visit.depth).getD 0

/-- **The depths rank the graph.** Every dependency is a package, of a lower depth. -/
theorem depths_rank (hdistinct : (packages.map LockedLeanPackageV1.key).Nodup) {visit : VisitState}
    (hsettled : Settled packages visit) (hfinished : ∀ index < packages.length, visit.state index = 2) :
    ∀ package ∈ packages, ∀ dependency ∈ package.dependencies,
      (∃ target ∈ packages, target.key = dependency) ∧
        depth_of packages visit dependency < depth_of packages visit package.key := by
  intro package hpackage dependency hdependency
  obtain ⟨index, hindex, hget⟩ := List.mem_iff_getElem.mp hpackage
  have hedge : dependency ∈ edges packages index := by
    rw [edges, List.getElem?_eq_getElem hindex, hget]
    exact hdependency
  obtain ⟨target, htarget, -, hdepth⟩ := hsettled index (hfinished index hindex) dependency hedge
  have hself : index_of packages package.key = some index := by
    rw [← hget]
    exact index_of_self hdistinct hindex
  obtain ⟨hlt, hkey, -⟩ := List.findIdx?_eq_some_iff_getElem.mp htarget
  refine ⟨⟨_, List.getElem_mem hlt, of_decide_eq_true hkey⟩, ?_⟩
  unfold depth_of
  rw [htarget, hself]
  exact hdepth

/-- **The graph of a lock is ranked.** Every dependency is a package of the lock, of a
lower rank. -/
theorem LeanBunLockV1.ranked (lock : LeanBunLockV1) :
    ∃ rank : PackageKeyV1 → ℕ, ∀ package ∈ lock.packages, ∀ dependency ∈ package.dependencies,
      (∃ target ∈ lock.packages, target.key = dependency) ∧ rank dependency < rank package.key := by
  obtain ⟨-, visit, hvisit⟩ := validate_graph_eq_ok.mp lock.graph_valid
  obtain ⟨hsettled, hfinished⟩ := visit_all_settled hvisit
  exact ⟨depth_of lock.packages visit,
    depths_rank (StrictlySorted.nodup _ lock.packages_sorted) hsettled hfinished⟩

end Whole

end LeanBun.Lock
