/-
What `validate_cycles_and_depth` accepts.

The traversal counts the depth from its start downwards and does not go on from a package
that is finished already. So it sees the depth of a chain only along the way on which it
comes to each package first, and that is the leftmost trail to the package in the order of
the keys. It refuses every graph with a cycle or an open end; of the others it refuses
those in which the leftmost trail to a package has as many packages as the limit and the
package depends on a further one. The lock measures every chain, so the two agree exactly
where a chain that is too long is seen on such a trail.
-/
import LeanBun.Lock.Heights
import LeanBun.Resolver.Update

set_option autoImplicit false

namespace LeanBun.Resolver

open LeanBun.Lib LeanBun.Core LeanBun.Lock LeanBun.Bridge

/-- The keys of the packages. -/
def resolved_keys (packages : List LeanResolvedPackageV1) : List PackageKeyV1 :=
  packages.map LeanResolvedPackageV1.key

/-- What the package of a key depends on. -/
def resolved_successors (packages : List LeanResolvedPackageV1) (key : PackageKeyV1) :
    List PackageKeyV1 :=
  ((package_of packages key).map LeanResolvedPackageV1.dependencies).getD []

/-- Packages and their dependencies in the order of the keys. -/
structure OrderedPackages (packages : List LeanResolvedPackageV1) : Prop where
  keys_sorted : StrictlySorted LeanResolvedPackageV1.key packages
  dependencies_sorted : ∀ package ∈ packages, StrictlySorted id package.dependencies

/-- A trail of packages. -/
abbrev PackageTrail (packages : List LeanResolvedPackageV1) : List PackageKeyV1 → Prop :=
  Trail (resolved_keys packages) (resolved_successors packages)

/-- A chain of more packages than the limit is seen: all but its last package are on the
leftmost trail. -/
def SeenTooDeep (packages : List LeanResolvedPackageV1) : Prop :=
  ∃ trail, PackageTrail packages trail ∧ trail.length = MAX_GRAPH_DEPTH_V1 + 1 ∧
    Leftmost (resolved_keys packages) (resolved_successors packages) trail.tail

section Marks

variable {packages : List LeanResolvedPackageV1} {states : List (PackageKeyV1 × ℕ)}

/-- The state of a key: 0 before it is visited, 1 in progress, 2 finished. -/
def mark (states : List (PackageKeyV1 × ℕ)) (key : PackageKeyV1) : ℕ :=
  ((states.find? fun entry => decide (entry.1 = key)).map Prod.snd).getD 0

theorem mark_nil (key : PackageKeyV1) : mark [] key = 0 := rfl

theorem mark_cons (key other : PackageKeyV1) (state : ℕ) :
    mark ((key, state) :: states) other = if key = other then state else mark states other := by
  unfold mark
  by_cases heq : key = other
  · rw [List.find?_cons_of_pos (by exact decide_eq_true heq), if_pos heq]
    rfl
  · rw [List.find?_cons_of_neg (by simpa using heq), if_neg heq]

/-- A visit looks at the mark of its key. -/
theorem visit_succ (remaining : ℕ) (key : PackageKeyV1) :
    visit packages (remaining + 1) key states =
      if mark states key = 1 then
        .error (.new .DependencyCycle ("dependency cycle reaches " ++ key_label key))
      else if mark states key = 2 then .ok states
      else match package_of packages key with
        | none => .error (.new .MissingTransitiveDeclaration
            "selected dependency edge has no package")
        | some package => do
          let states ← package.dependencies.foldlM (fun states dependency =>
            visit packages remaining dependency states) ((key, 1) :: states)
          return (key, 2) :: states := by
  rw [visit]
  unfold mark
  cases states.find? fun entry => decide (entry.1 = key) with
  | none => rfl
  | some entry =>
    obtain ⟨name, state⟩ := entry
    by_cases hone : state = 1
    · subst hone
      rfl
    by_cases htwo : state = 2
    · subst htwo
      rfl
    rw [Option.map_some, Option.getD_some, if_neg hone, if_neg htwo]
    split
    · next heq =>
      cases heq
      exact absurd rfl hone
    · next heq =>
      cases heq
      exact absurd rfl htwo
    · rfl

theorem resolved_successors_of_mem (hdistinct : (resolved_keys packages).Nodup)
    {package : LeanResolvedPackageV1} (hpackage : package ∈ packages) :
    resolved_successors packages package.key = package.dependencies := by
  unfold resolved_successors package_of
  rw [find_key_of_mem hdistinct hpackage]
  rfl

theorem mem_resolved_keys {key : PackageKeyV1} :
    key ∈ resolved_keys packages ↔ ∃ package ∈ packages, package.key = key := List.mem_map

/-- A key that is found is one of the keys. -/
theorem package_of_some {key : PackageKeyV1} {package : LeanResolvedPackageV1}
    (h : package_of packages key = some package) : key ∈ resolved_keys packages ∧
      resolved_successors packages key = package.dependencies := by
  obtain ⟨hmem, hkey⟩ := find_key_some h
  refine ⟨mem_resolved_keys.mpr ⟨package, hmem, hkey⟩, ?_⟩
  unfold resolved_successors
  rw [h]
  rfl

end Marks

/-! ## An accepted graph -/

section Accepted

variable {packages : List LeanResolvedPackageV1}

/-- What is finished is a package from which every way ends. -/
def FinishedEnds (packages : List LeanResolvedPackageV1) (states : List (PackageKeyV1 × ℕ)) : Prop :=
  ∀ key, mark states key = 2 → key ∈ resolved_keys packages ∧
    (∀ next ∈ resolved_successors packages key, mark states next = 2) ∧
    Acc (fun next key => Arc (resolved_successors packages) key next) key

/-- Some keys are finished, and everything that was finished before still is. -/
structure Finishes (packages : List LeanResolvedPackageV1) (before : List (PackageKeyV1 × ℕ))
    (done : List PackageKeyV1) (after : List (PackageKeyV1 × ℕ)) : Prop where
  ends : FinishedEnds packages after
  keeps : ∀ key, mark before key = 2 → mark after key = 2
  done : ∀ key ∈ done, mark after key = 2

/-- A visit that succeeds finishes its package. -/
theorem visit_finishes (remaining : ℕ) : ∀ {key : PackageKeyV1}
    {states states' : List (PackageKeyV1 × ℕ)}, FinishedEnds packages states →
    visit packages remaining key states = .ok states' →
    Finishes packages states [key] states' := by
  induction remaining with
  | zero =>
    intro key states states' _ h
    cases h
  | succ remaining ih =>
    intro key states states' hends h
    rw [visit_succ] at h
    by_cases hone : mark states key = 1
    · rw [if_pos hone] at h
      cases h
    rw [if_neg hone] at h
    by_cases htwo : mark states key = 2
    · rw [if_pos htwo] at h
      cases h
      exact ⟨hends, fun _ hkey => hkey, fun other hother => by
        rwa [List.mem_singleton.mp hother]⟩
    rw [if_neg htwo] at h
    cases hpackage : package_of packages key with
    | none =>
      rw [hpackage] at h
      cases h
    | some package =>
      rw [hpackage] at h
      obtain ⟨after, hfold, h⟩ := bind_eq_ok.mp h
      cases h
      obtain ⟨hkey, hsucc⟩ := package_of_some hpackage
      have hnew : ∀ other, mark states other = 2 → key ≠ other := by
        rintro other hother rfl
        exact htwo hother
      have hentered : ∀ other, mark ((key, 1) :: states) other = 2 ↔ mark states other = 2 := by
        intro other
        rw [mark_cons]
        by_cases heq : key = other
        · rw [if_pos heq]
          exact iff_of_false (by decide) fun hother => hnew other hother heq
        · rw [if_neg heq]
      have hstart : Finishes packages ((key, 1) :: states) [] ((key, 1) :: states) := by
        refine ⟨fun other hother => ?_, fun _ hother => hother, fun _ hother => absurd hother List.not_mem_nil⟩
        obtain ⟨hmem, hnext, hacc⟩ := hends other ((hentered other).mp hother)
        exact ⟨hmem, fun next hin => (hentered next).mpr (hnext next hin), hacc⟩
      have hloop : Finishes packages ((key, 1) :: states) package.dependencies after := by
        refine foldlM_invariant (Finishes packages ((key, 1) :: states)) ?_ hstart hfold
        intro done dependency current current' _ hcurrent hvisit
        have hspec := ih hcurrent.ends hvisit
        refine ⟨hspec.ends, fun other hother => hspec.keeps other (hcurrent.keeps other hother), ?_⟩
        intro other hother
        rcases List.mem_append.mp hother with hother | hother
        · exact hspec.keeps other (hcurrent.done other hother)
        · exact hspec.done other hother
      have hfinal : ∀ other, mark ((key, 2) :: after) other = 2 ↔ other = key ∨ mark after other = 2 := by
        intro other
        rw [mark_cons]
        by_cases heq : key = other
        · rw [if_pos heq]
          exact iff_of_true rfl (Or.inl heq.symm)
        · rw [if_neg heq, or_iff_right (Ne.symm heq)]
      refine ⟨fun other hother => ?_, fun other hother => ?_, fun other hother => ?_⟩
      · rcases (hfinal other).mp hother with rfl | hother
        · have hnext : ∀ next ∈ resolved_successors packages other, mark after next = 2 := by
            rw [hsucc]
            exact hloop.done
          exact ⟨hkey, fun next hin => (hfinal next).mpr (Or.inr (hnext next hin)),
            Acc.intro _ fun next hin => (hloop.ends next (hnext next hin)).2.2⟩
        · obtain ⟨hmem, hnext, hacc⟩ := hloop.ends other hother
          exact ⟨hmem, fun next hin => (hfinal next).mpr (Or.inr (hnext next hin)), hacc⟩
      · exact (hfinal other).mpr (Or.inr (hloop.keeps other ((hentered other).mpr hother)))
      · exact (hfinal other).mpr (Or.inl (List.mem_singleton.mp hother))

/-- The loop over the packages, by their keys. -/
theorem validate_eq_ok : validate_cycles_and_depth packages = .ok () ↔
    ∃ states, (resolved_keys packages).foldlM (fun states key =>
      visit packages MAX_GRAPH_DEPTH_V1 key states) [] = .ok states := by
  unfold validate_cycles_and_depth resolved_keys
  rw [List.foldlM_map]
  constructor
  · intro h
    obtain ⟨states, hfold, -⟩ := bind_eq_ok.mp h
    exact ⟨states, hfold⟩
  · rintro ⟨states, hfold⟩
    exact bind_eq_ok.mpr ⟨states, hfold, rfl⟩

/-- **An accepted graph** has no open end and no cycle. -/
theorem validate_closed_acyclic (h : validate_cycles_and_depth packages = .ok ()) :
    ClosedRoots (resolved_keys packages) (resolved_successors packages) ∧
      Acyclic (resolved_successors packages) := by
  obtain ⟨states, hfold⟩ := validate_eq_ok.mp h
  have hall : Finishes packages [] (resolved_keys packages) states := by
    refine foldlM_invariant (Finishes packages []) ?_ ⟨fun key hkey => ?_, fun _ hkey => hkey,
      fun _ hkey => absurd hkey List.not_mem_nil⟩ hfold
    · intro done key current current' _ hcurrent hvisit
      have hspec := visit_finishes _ hcurrent.ends hvisit
      refine ⟨hspec.ends, fun other hother => hspec.keeps other (hcurrent.keeps other hother), ?_⟩
      intro other hother
      rcases List.mem_append.mp hother with hother | hother
      · exact hspec.keeps other (hcurrent.done other hother)
      · exact hspec.done other hother
    · cases hkey
  refine ⟨fun a ha b hb => ?_, fun a hcycle => ?_⟩
  · exact (hall.ends b ((hall.ends a (hall.done a ha)).2.1 b hb)).1
  · -- what is on a cycle depends on something, so it is a package
    have ha : a ∈ resolved_keys packages := by
      obtain ⟨b, hstep, -⟩ := Relation.TransGen.head'_iff.mp hcycle
      unfold Arc resolved_successors at hstep
      cases hpackage : package_of packages a with
      | none =>
        rw [hpackage] at hstep
        exact absurd hstep List.not_mem_nil
      | some package => exact (package_of_some hpackage).1
    exact not_cycle_of_acc (hall.ends a (hall.done a ha)).2.2 hcycle

end Accepted

/-! ## Along the leftmost trails -/

section Exact

variable {packages : List LeanResolvedPackageV1}

/-- The states before the next node of a trail is tried: in progress is the trail, and
finished is what the traversal has passed, with some of the next nodes. -/
structure Standing (packages : List LeanResolvedPackageV1) (trail : List PackageKeyV1)
    (done : List PackageKeyV1) (states : List (PackageKeyV1 × ℕ)) : Prop where
  progress : ∀ key, mark states key = 1 ↔ key ∈ trail
  finished : ∀ key, mark states key = 2 ↔
    Passed (resolved_keys packages) (resolved_successors packages) trail key ∨
      ∃ next ∈ done, Within (resolved_keys packages) (resolved_successors packages)
        (next :: trail) key
  shallow : ∀ next ∈ done, ∀ longer, PackageTrail packages longer →
    longer.length = MAX_GRAPH_DEPTH_V1 + 1 → next :: trail <:+ longer →
    ¬Leftmost (resolved_keys packages) (resolved_successors packages) longer.tail

/-- What a visit does at the end of a trail. -/
def VisitOutcome (packages : List LeanResolvedPackageV1) (remaining : ℕ) : Prop :=
  ∀ (key : PackageKeyV1) (trail done : List PackageKeyV1) (states : List (PackageKeyV1 × ℕ)),
    PackageTrail packages (key :: trail) →
    Leftmost (resolved_keys packages) (resolved_successors packages) trail →
    remaining + trail.length = MAX_GRAPH_DEPTH_V1 →
    (∀ other, other ∈ done ↔
      other ∈ next_nodes (resolved_keys packages) (resolved_successors packages) trail ∧ other < key) →
    Standing packages trail done states →
    Outcome (Standing packages trail (done ++ [key])) (fun _ => SeenTooDeep packages)
      (visit packages remaining key states)

/-- The loop over the next nodes of a trail. -/
theorem loop_outcome {remaining : ℕ} (hvisit : VisitOutcome packages remaining)
    {trail : List PackageKeyV1} {states : List (PackageKeyV1 × ℕ)}
    (htrail : Leftmost (resolved_keys packages) (resolved_successors packages) trail)
    (hremaining : remaining + trail.length = MAX_GRAPH_DEPTH_V1)
    (hsorted : StrictlySorted id
      (next_nodes (resolved_keys packages) (resolved_successors packages) trail))
    (hstart : Standing packages trail [] states) :
    Outcome (Standing packages trail
        (next_nodes (resolved_keys packages) (resolved_successors packages) trail))
      (fun _ => SeenTooDeep packages)
      ((next_nodes (resolved_keys packages) (resolved_successors packages) trail).foldlM
        (fun states key => visit packages remaining key states) states) := by
  refine foldlM_outcome (Standing packages trail) ?_ hstart
  intro done key current hpre hcurrent
  have hmem : key ∈ next_nodes (resolved_keys packages) (resolved_successors packages) trail :=
    hpre.subset (List.mem_append_right done List.mem_cons_self)
  exact hvisit key trail done current ⟨hmem, htrail.trail⟩ htrail hremaining
    (fun other => hsorted.mem_before_iff hpre) hcurrent

/-- The states before a visit, by what is passed. -/
theorem Standing.passed {key : PackageKeyV1} {trail done : List PackageKeyV1}
    {states : List (PackageKeyV1 × ℕ)} (h : Standing packages trail done states)
    (hdone : ∀ other, other ∈ done ↔
      other ∈ next_nodes (resolved_keys packages) (resolved_successors packages) trail ∧ other < key)
    (other : PackageKeyV1) : mark states other = 2 ↔
      Passed (resolved_keys packages) (resolved_successors packages) (key :: trail) other := by
  rw [h.finished, passed_cons_iff]
  simp only [hdone, and_assoc]

/-- A package that is finished, or has just been, and everything its trail leads to. -/
theorem Standing.add {key : PackageKeyV1} {trail done : List PackageKeyV1}
    {states states' : List (PackageKeyV1 × ℕ)} (h : Standing packages trail done states)
    (hdone : ∀ other, other ∈ done ↔
      other ∈ next_nodes (resolved_keys packages) (resolved_successors packages) trail ∧ other < key)
    (hprogress : ∀ other, mark states' other = 1 ↔ other ∈ trail)
    (hfinished : ∀ other, mark states' other = 2 ↔
      Passed (resolved_keys packages) (resolved_successors packages) (key :: trail) other ∨
        Within (resolved_keys packages) (resolved_successors packages) (key :: trail) other)
    (hshallow : ∀ longer, PackageTrail packages longer → longer.length = MAX_GRAPH_DEPTH_V1 + 1 →
      key :: trail <:+ longer →
      ¬Leftmost (resolved_keys packages) (resolved_successors packages) longer.tail) :
    Standing packages trail (done ++ [key]) states' where
  progress := hprogress
  finished := by
    intro other
    rw [hfinished, ← h.passed hdone, h.finished]
    constructor
    · rintro ((hpassed | ⟨next, hnext, hwithin⟩) | hwithin)
      · exact Or.inl hpassed
      · exact Or.inr ⟨next, List.mem_append_left _ hnext, hwithin⟩
      · exact Or.inr ⟨key, List.mem_append_right _ (List.mem_singleton_self key), hwithin⟩
    · rintro (hpassed | ⟨next, hnext, hwithin⟩)
      · exact Or.inl (Or.inl hpassed)
      · rcases List.mem_append.mp hnext with hnext | hnext
        · exact Or.inl (Or.inr ⟨next, hnext, hwithin⟩)
        · rw [List.mem_singleton.mp hnext] at hwithin
          exact Or.inr hwithin
  shallow := by
    intro next hnext longer hlonger hlength hsuffix
    rcases List.mem_append.mp hnext with hnext | hnext
    · exact h.shallow next hnext longer hlonger hlength hsuffix
    · rw [List.mem_singleton.mp hnext] at hsuffix
      exact hshallow longer hlonger hlength hsuffix

/-- **A visit along a trail.** It goes on only where the trail to its package is leftmost,
and fails only where a chain that is too long is seen. -/
theorem visit_outcome (hordered : OrderedPackages packages)
    (hclosed : ClosedRoots (resolved_keys packages) (resolved_successors packages))
    (hacyclic : Acyclic (resolved_successors packages)) (remaining : ℕ) :
    VisitOutcome packages remaining := by
  induction remaining with
  | zero =>
    intro key trail done states htrail hleftmost hlength _ _
    exact ⟨key :: trail, htrail, by rw [List.length_cons]; omega, hleftmost⟩
  | succ remaining ih =>
    intro key trail done states htrail hleftmost hlength hdone hstanding
    rw [visit_succ]
    by_cases hone : mark states key = 1
    · -- in progress would be a cycle
      have hmem : key ∈ trail := (hstanding.progress key).mp hone
      exact absurd hmem (List.nodup_cons.mp (htrail.nodup hacyclic)).1
    rw [if_neg hone]
    by_cases htwo : mark states key = 2
    · rw [if_pos htwo]
      have hpassed := (hstanding.passed hdone key).mp htwo
      refine hstanding.add hdone hstanding.progress (fun other => ?_) ?_
      · rw [hstanding.passed hdone]
        exact ⟨Or.inl, fun h => h.elim (fun hp => hp) hpassed.within⟩
      · -- a longer leftmost trail would make this one leftmost
        intro longer hlonger hlen hsuffix hleft
        rcases List.suffix_cons_iff.mp (show key :: trail <:+ longer.head (by
            rintro rfl
            cases hlen) :: longer.tail by rwa [List.cons_head_tail]) with heq | hin
        · have hsame : longer.length = (key :: trail).length := by
            rw [heq, List.cons_head_tail]
          rw [List.length_cons] at hsame
          omega
        · exact (leftmost_cons_iff htrail).mp (hleft.suffix hin) hpassed
    rw [if_neg htwo]
    have hkey : key ∈ resolved_keys packages := htrail.mem_roots hclosed key List.mem_cons_self
    have hdistinct : (resolved_keys packages).Nodup := StrictlySorted.nodup _ hordered.keys_sorted
    obtain ⟨package, hpackage, rfl⟩ := mem_resolved_keys.mp hkey
    have hfind : package_of packages package.key = some package := find_key_of_mem hdistinct hpackage
    rw [hfind]
    have hnew : ¬Passed (resolved_keys packages) (resolved_successors packages)
        (package.key :: trail) package.key := fun h => htwo ((hstanding.passed hdone _).mpr h)
    have hnotin : package.key ∉ trail := (List.nodup_cons.mp (htrail.nodup hacyclic)).1
    have hentered : Standing packages (package.key :: trail) [] ((package.key, 1) :: states) := by
      refine ⟨fun other => ?_, fun other => ?_, fun _ hnext => absurd hnext List.not_mem_nil⟩
      · rw [mark_cons, List.mem_cons]
        by_cases heq : package.key = other
        · rw [if_pos heq]
          exact iff_of_true rfl (Or.inl heq.symm)
        · rw [if_neg heq, hstanding.progress, or_iff_right (Ne.symm heq)]
      · rw [mark_cons, or_iff_left (fun ⟨_, hnext, _⟩ => absurd hnext List.not_mem_nil)]
        by_cases heq : package.key = other
        · subst heq
          rw [if_pos rfl]
          exact iff_of_false (by decide) hnew
        · rw [if_neg heq]
          exact hstanding.passed hdone other
    have hloop := loop_outcome ih ((leftmost_cons_iff htrail).mpr hnew)
      (by rw [List.length_cons]; omega) (by
        show StrictlySorted id (resolved_successors packages package.key)
        rw [resolved_successors_of_mem hdistinct hpackage]
        exact hordered.dependencies_sorted package hpackage) hentered
    have hnodes : next_nodes (resolved_keys packages) (resolved_successors packages)
        (package.key :: trail) = package.dependencies :=
      resolved_successors_of_mem hdistinct hpackage
    rw [hnodes] at hloop
    refine hloop.bind fun after hafter => ?_
    refine hstanding.add hdone (fun other => ?_) (fun other => ?_) ?_
    · rw [mark_cons]
      by_cases heq : package.key = other
      · subst heq
        rw [if_pos rfl]
        exact iff_of_false (by decide) hnotin
      · rw [if_neg heq, hafter.progress, List.mem_cons, or_iff_right (Ne.symm heq)]
    · rw [mark_cons, within_cons_iff htrail, resolved_successors_of_mem hdistinct hpackage]
      by_cases heq : package.key = other
      · rw [if_pos heq]
        exact iff_of_true rfl (Or.inr (Or.inl heq.symm))
      · rw [if_neg heq, hafter.finished, or_iff_right (Ne.symm heq : ¬other = package.key)]
    · -- a longer trail goes on to one of the dependencies
      intro longer hlonger hlen hsuffix
      obtain ⟨front, rfl⟩ := hsuffix
      rcases List.eq_nil_or_concat front with rfl | ⟨front, next, rfl⟩
      · rw [List.nil_append, List.length_cons] at hlen
        omega
      · rw [List.concat_append] at hlonger hlen ⊢
        have hsuffix : next :: package.key :: trail <:+ front ++ next :: package.key :: trail :=
          List.suffix_append _ _
        have hnext : next ∈ resolved_successors packages package.key := (hlonger.suffix hsuffix).1
        rw [resolved_successors_of_mem hdistinct hpackage] at hnext
        exact hafter.shallow next hnext _ hlonger hlen hsuffix

/-- **What is accepted**, of the graphs without an open end and without a cycle. -/
theorem validate_eq_ok_iff (hordered : OrderedPackages packages)
    (hclosed : ClosedRoots (resolved_keys packages) (resolved_successors packages))
    (hacyclic : Acyclic (resolved_successors packages)) :
    validate_cycles_and_depth packages = .ok () ↔ ¬SeenTooDeep packages := by
  have hsorted : StrictlySorted id (resolved_keys packages) := by
    unfold StrictlySorted resolved_keys
    rw [List.pairwise_map]
    exact hordered.keys_sorted
  have hstart : Standing packages [] [] [] :=
    ⟨fun key => iff_of_false (by rw [mark_nil]; decide) List.not_mem_nil,
      fun key => iff_of_false (by rw [mark_nil]; decide) fun h => h.elim passed_nil
        fun ⟨_, hnext, _⟩ => absurd hnext List.not_mem_nil,
      fun _ hnext => absurd hnext List.not_mem_nil⟩
  have hloop := loop_outcome (visit_outcome hordered hclosed hacyclic MAX_GRAPH_DEPTH_V1)
    leftmost_nil (Nat.add_zero _) hsorted hstart
  rw [validate_eq_ok]
  constructor
  · rintro ⟨states, hfold⟩ ⟨longer, hlonger, hlength, hleftmost⟩
    have hend : Standing packages [] (resolved_keys packages) states := by
      have hout := hloop
      rw [show (next_nodes (resolved_keys packages) (resolved_successors packages) []).foldlM
        (fun states key => visit packages MAX_GRAPH_DEPTH_V1 key states) [] = .ok states from hfold] at hout
      exact hout
    rcases List.eq_nil_or_concat longer with rfl | ⟨front, start, rfl⟩
    · cases hlength
    · rw [List.concat_eq_append] at hlonger hlength hleftmost
      have hsuffix : [start] <:+ front ++ [start] := List.suffix_append _ _
      exact hend.shallow start (hlonger.suffix hsuffix).1 _ hlonger hlength hsuffix hleftmost
  · intro hnot
    cases hfold : (resolved_keys packages).foldlM (fun states key =>
        visit packages MAX_GRAPH_DEPTH_V1 key states) [] with
    | ok states => exact ⟨states, rfl⟩
    | error e =>
      have hout := hloop
      rw [show (next_nodes (resolved_keys packages) (resolved_successors packages) []).foldlM
        (fun states key => visit packages MAX_GRAPH_DEPTH_V1 key states) [] = .error e from hfold] at hout
      exact absurd hout hnot

end Exact

/-! ## Against the lock -/

section Verdict

variable {packages : List LeanResolvedPackageV1} {locked : List LockedLeanPackageV1}

/-- Locked packages with the graph of resolved ones. -/
def SameGraph (locked : List LockedLeanPackageV1) (packages : List LeanResolvedPackageV1) : Prop :=
  (locked.map fun package => (package.key, package.dependencies)) =
    packages.map fun package => (package.key, package.dependencies)

instance : Decidable (SameGraph locked packages) := inferInstanceAs (Decidable (_ = _))

theorem SameGraph.keys (h : SameGraph locked packages) :
    package_keys locked = resolved_keys packages := by
  have hfst := congrArg (List.map Prod.fst) h
  rw [List.map_map, List.map_map] at hfst
  exact hfst

theorem SameGraph.successors (h : SameGraph locked packages) :
    successors locked = resolved_successors packages := by
  funext key
  have hlocked : ∀ list : List LockedLeanPackageV1, Lock.successors list key =
      (((list.map fun package => (package.key, package.dependencies)).find?
        fun pair => decide (pair.1 = key)).map Prod.snd).getD [] := by
    intro list
    rw [List.find?_map, Option.map_map]
    rfl
  have hresolved : ∀ list : List LeanResolvedPackageV1, resolved_successors list key =
      (((list.map fun package => (package.key, package.dependencies)).find?
        fun pair => decide (pair.1 = key)).map Prod.snd).getD [] := by
    intro list
    rw [List.find?_map, Option.map_map]
    rfl
  rw [hlocked, hresolved, h]

/-- **The condition.** Where nothing else is wrong with the graph, a chain that is too long
is seen on a leftmost trail. -/
def DepthSeen (packages : List LeanResolvedPackageV1) : Prop :=
  ClosedRoots (resolved_keys packages) (resolved_successors packages) →
  Acyclic (resolved_successors packages) →
  (∃ trail, PackageTrail packages trail ∧ MAX_GRAPH_DEPTH_V1 < trail.length) →
  SeenTooDeep packages

/-- The graph that the lock would accept. -/
abbrev WithinLimit (packages : List LeanResolvedPackageV1) : Prop :=
  BoundedGraph (resolved_keys packages) (resolved_successors packages) MAX_GRAPH_DEPTH_V1

/-- A graph within the limit is accepted. -/
theorem validate_within (hordered : OrderedPackages packages) (h : WithinLimit packages) :
    validate_cycles_and_depth packages = .ok () := by
  rw [validate_eq_ok_iff hordered h.closed h.acyclic]
  rintro ⟨trail, htrail, hlength, -⟩
  have hle := h.bounded trail htrail
  omega

/-- Nothing beyond the limit is accepted, exactly under the condition. -/
theorem accepted_within_iff (hordered : OrderedPackages packages) :
    (validate_cycles_and_depth packages = .ok () → WithinLimit packages) ↔ DepthSeen packages := by
  constructor
  · rintro h hclosed hacyclic ⟨trail, htrail, hlong⟩
    by_contra hnot
    have hwithin := h ((validate_eq_ok_iff hordered hclosed hacyclic).mpr hnot)
    exact absurd (hwithin.bounded trail htrail) (not_le.mpr hlong)
  · intro hseen hok
    obtain ⟨hclosed, hacyclic⟩ := validate_closed_acyclic hok
    refine ⟨hclosed, hacyclic, fun trail htrail => ?_⟩
    by_contra hlong
    exact (validate_eq_ok_iff hordered hclosed hacyclic).mp hok
      (hseen hclosed hacyclic ⟨trail, htrail, not_le.mp hlong⟩)

theorem dependency_keys_sorted (candidate : LeanPackageCandidateV1) :
    StrictlySorted id (dependency_keys candidate) := by
  have hsorted := sort_by_key_sorted id (candidate.dependencies.map LeanDependencyRequirementV1.key)
  exact dedup_adjacent_sorted _ hsorted

/-- The packages of a resolved graph are in order, and have been accepted. -/
theorem resolved_graph_ordered {request : LeanResolutionRequestV1}
    {candidates : List LeanPackageCandidateV1} {graph : LeanResolutionGraphV1}
    (h : resolve_lean_dependencies_v1 request candidates = .ok graph) :
    OrderedPackages graph.packages ∧ validate_cycles_and_depth graph.packages = .ok () := by
  constructor
  · obtain ⟨roots, winner, -, hcomplete⟩ := resolve_complete h
    refine ⟨hcomplete.packages_sorted, fun package hpackage => ?_⟩
    rw [(hcomplete.packages_supplied package hpackage).2]
    exact dependency_keys_sorted package.candidate
  · unfold resolve_lean_dependencies_v1 at h
    obtain ⟨_, -, h⟩ := bind_eq_ok.mp h
    obtain ⟨_, -, h⟩ := bind_eq_ok.mp h
    obtain ⟨_, -, h⟩ := bind_eq_ok.mp h
    obtain ⟨_, -, h⟩ := bind_eq_ok.mp h
    obtain ⟨_, -, h⟩ := bind_eq_ok.mp h
    obtain ⟨_, -, h⟩ := bind_eq_ok.mp h
    obtain ⟨_, hdepth, h⟩ := bind_eq_ok.mp h
    obtain ⟨_, -, h⟩ := bind_eq_ok.mp h
    cases h
    exact hdepth

/-- **The depth limit of the resolver.** On ordered packages its verdict is that of the lock
on the same graph, exactly where a chain that is too long is seen. What it refuses is never
within the limit, and what it returns has no cycle and no open end. -/
theorem depth_verdict (packages : List LeanResolvedPackageV1) (hordered : OrderedPackages packages) :
    (∀ locked : List LockedLeanPackageV1, SameGraph locked packages →
      ((validate_cycles_and_depth packages).isOk = (validate_graph locked).isOk ↔
        DepthSeen packages)) ∧
    (WithinLimit packages → (validate_cycles_and_depth packages).isOk = true) ∧
    ∀ (request : LeanResolutionRequestV1) (candidates : List LeanPackageCandidateV1)
      (graph : LeanResolutionGraphV1), resolve_lean_dependencies_v1 request candidates = .ok graph →
      ClosedRoots (resolved_keys graph.packages) (resolved_successors graph.packages) ∧
      Acyclic (resolved_successors graph.packages) ∧
      (WithinLimit graph.packages ↔ DepthSeen graph.packages) := by
  refine ⟨fun locked hsame => ?_, fun hwithin => ?_, fun request candidates graph hgraph => ?_⟩
  · have hdistinct : (package_keys locked).Nodup := by
      rw [hsame.keys]
      exact StrictlySorted.nodup _ hordered.keys_sorted
    rw [← accepted_within_iff hordered, Bool.eq_iff_iff, isOk_unit, isOk_unit,
      validate_graph_iff hdistinct, hsame.keys, hsame.successors]
    exact ⟨fun h => h.mp, fun h => ⟨h, validate_within hordered⟩⟩
  · exact isOk_unit.mpr (validate_within hordered hwithin)
  · obtain ⟨hgraph_ordered, hok⟩ := resolved_graph_ordered hgraph
    obtain ⟨hclosed, hacyclic⟩ := validate_closed_acyclic hok
    refine ⟨hclosed, hacyclic, ?_⟩
    rw [← accepted_within_iff hgraph_ordered]
    exact ⟨fun h _ => h, fun h => h hok⟩

end Verdict

/-! ## A chain that is not seen -/

/-- The names are single characters, in their order. -/
def deep_key (n : Fin 129) : PackageKeyV1 :=
  ⟨[], [Char.ofNat (256 + n.val)], no_scope_valid, by revert n; decide +kernel⟩

/-- Every package but the first depends on the one before it. -/
def deep_requirements (n : Fin 129) : List LeanDependencyRequirementV1 :=
  if n = 0 then [] else [⟨deep_key (n - 1), .Path ['b'] b_relative⟩]

def deep_package (n : Fin 129) : LeanResolvedPackageV1 :=
  resolved_package ⟨sample_candidate (deep_key n) ['b'] (sample_digest 1) (deep_requirements n)
    b_relative (by revert n; decide +kernel), .Root 0⟩

/-- 129 packages, the end of the chain first. -/
def deep_packages : List LeanResolvedPackageV1 := (List.finRange 129).map deep_package

def deep_locked_package (n : Fin 129) : LockedLeanPackageV1 where
  key := deep_key n
  requested := .PathSnapshot ['b'] b_path_valid
  resolved := .PathSnapshot ['b'] b_path_valid
  download_integrity := none
  source_tree_sha256 := sample_digest 1
  config_sha256 := sample_digest 1
  manifest_sha256 := none
  dependencies := if n = 0 then [] else [deep_key (n - 1)]
  provenance_digests := [sample_digest 1]
  selected_source_identity := sample_digest 1
  counts_bounded := by revert n; decide +kernel
  integrity_present := by rintro ⟨h, -⟩; cases h
  compatible := b_paths_compatible
  dependencies_sorted := by revert n; decide +kernel
  no_self_dependency := by revert n; decide +kernel
  provenance_sorted := List.pairwise_singleton _ _
  provenance_present := List.cons_ne_nil _ _

def deep_locked : List LockedLeanPackageV1 := (List.finRange 129).map deep_locked_package

theorem deep_facts : SameGraph deep_locked deep_packages ∧
    (validate_cycles_and_depth deep_packages).isOk = true ∧
    (validate_graph deep_locked).isOk = false := by
  decide +kernel

theorem deep_ordered : OrderedPackages deep_packages := by
  have htrans : IsTrans LeanResolvedPackageV1 fun a b => a.key < b.key := ⟨fun _ _ _ => lt_trans⟩
  have hnext : deep_packages.IsChain fun a b => a.key < b.key := by decide +kernel
  refine ⟨List.isChain_iff_pairwise.mp hnext, fun package hpackage => ?_⟩
  obtain ⟨n, -, rfl⟩ := List.mem_map.mp hpackage
  exact dependency_keys_sorted _

/-- The chain is not seen: the resolver comes to every package from its own key. -/
theorem depth_verdict_deep : ¬DepthSeen deep_packages := by
  obtain ⟨hsame, haccepted, hrefused⟩ := deep_facts
  intro hseen
  have hequal := ((depth_verdict deep_packages deep_ordered).1 deep_locked hsame).mpr hseen
  rw [haccepted, hrefused] at hequal
  cases hequal

/-- **A chain of 129 packages** that the resolver accepts and the lock refuses. -/
theorem depth_verdicts_differ : ¬∀ packages, OrderedPackages packages →
    ∀ locked, SameGraph locked packages →
      (validate_cycles_and_depth packages).isOk = (validate_graph locked).isOk := by
  obtain ⟨hsame, haccepted, hrefused⟩ := deep_facts
  intro h
  have hequal := h deep_packages deep_ordered deep_locked hsame
  rw [haccepted, hrefused] at hequal
  cases hequal

end LeanBun.Resolver
