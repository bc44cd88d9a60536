/-
What a resolved graph contains.

The loop invariant relates the state of the resolution to the list of
requirements that were handed to `select_requirement` so far, in order. Every one
of them found its package selected, and either selected it or left one shadow.
When the queue is empty these are all requirements of the graph.
-/
import LeanBun.Resolver.Resolve

set_option autoImplicit false

namespace LeanBun.Resolver

open LeanBun.Lib LeanBun.Core LeanBun.Lock LeanBun.Bridge

/-- A requirement and where it was declared. -/
abbrev Declared := LeanResolutionOriginV1 × LeanDependencyRequirementV1

/-- The key of a selected candidate. -/
def SelectedCandidate.key (entry : SelectedCandidate) : PackageKeyV1 := entry.candidate.key

/-! ## Looking up selected packages -/

theorem get_eq_some {state : ResolutionState} {key : PackageKeyV1} {entry : SelectedCandidate}
    (h : state.get key = some entry) : entry ∈ state.selected ∧ entry.key = key := find_key_some h

theorem get_eq_none {state : ResolutionState} {key : PackageKeyV1} (h : state.get key = none) :
    ∀ entry ∈ state.selected, entry.key ≠ key := find_key_none.mp h

/-- With distinct keys, an entry is found under its key. -/
theorem get_of_mem {state : ResolutionState} (hnodup : (state.selected.map SelectedCandidate.key).Nodup)
    {entry : SelectedCandidate} (hentry : entry ∈ state.selected) :
    state.get entry.key = some entry := find_key_of_mem hnodup hentry

/-- Entries that are there stay the ones that are found. -/
theorem get_append {state state' : ResolutionState} {more : List SelectedCandidate}
    (hsel : state'.selected = state.selected ++ more) {key : PackageKeyV1}
    {entry : SelectedCandidate} (h : state.get key = some entry) : state'.get key = some entry := by
  unfold ResolutionState.get at h ⊢
  rw [hsel, List.find?_append, h, Option.some_or]

/-! ## One requirement -/

/-- **What `select_requirement` can do.** The package is selected and matches,
and a shadow is recorded; or the only matching candidate is selected. -/
theorem select_requirement_cases {request : LeanResolutionRequestV1}
    {registry : List LeanPackageCandidateV1} {state state' : ResolutionState}
    {origin : LeanResolutionOriginV1} {requirement : LeanDependencyRequirementV1}
    (h : select_requirement request registry state origin requirement = .ok state') :
    (∃ existing, state.get requirement.key = some existing ∧
      request_matches_candidate requirement.source existing.candidate = true ∧
      state' = state.push_shadow
        ⟨requirement.key, existing.candidate.identity, existing.winner, origin⟩) ∨
    (∃ candidate, state.get requirement.key = none ∧
      matching request registry requirement = [candidate] ∧
      state' = state.select candidate origin) := by
  unfold select_requirement at h
  cases hget : state.get requirement.key with
  | some existing =>
    rw [hget] at h
    dsimp only at h
    by_cases hmatch : request_matches_candidate requirement.source existing.candidate = true
    · rw [if_pos hmatch] at h
      exact Or.inl ⟨existing, rfl, hmatch, (Except.ok.inj h).symm⟩
    · rw [if_neg hmatch] at h
      cases h
  | none =>
    rw [hget] at h
    dsimp only at h
    by_cases havail : available registry requirement.key = []
    · rw [if_pos havail] at h
      cases h
    · rw [if_neg havail] at h
      split at h
      · cases h
      · next candidate hmatching =>
        split at h
        · exact Or.inr ⟨candidate, rfl, hmatching, (Except.ok.inj h).symm⟩
        · cases h
      · cases h

/-- A matching candidate is in the registry, has the key, matches the source and
the pin. -/
theorem mem_matching {request : LeanResolutionRequestV1} {registry : List LeanPackageCandidateV1}
    {requirement : LeanDependencyRequirementV1} {candidate : LeanPackageCandidateV1} :
    candidate ∈ matching request registry requirement ↔
      candidate ∈ registry ∧ candidate.key = requirement.key ∧
        request_matches_candidate requirement.source candidate = true ∧
        matches_pin request requirement.key candidate = true := by
  simp only [matching, available, List.mem_filter, decide_eq_true_eq, Bool.and_eq_true, and_assoc]

/-! ## The invariant -/

/-- Keys that the roots reach through the selected candidates. -/
inductive ReachableKey (roots : List Declared) (candidates : List LeanPackageCandidateV1) :
    PackageKeyV1 → Prop
  | root {e : Declared} : e ∈ roots → ReachableKey roots candidates e.2.key
  | dependency {candidate : LeanPackageCandidateV1} {requirement : LeanDependencyRequirementV1} :
      candidate ∈ candidates → ReachableKey roots candidates candidate.key →
      requirement ∈ candidate.dependencies → ReachableKey roots candidates requirement.key

theorem ReachableKey.mono {roots : List Declared} {cs cs' : List LeanPackageCandidateV1}
    (hsub : ∀ c ∈ cs, c ∈ cs') {key : PackageKeyV1} (h : ReachableKey roots cs key) :
    ReachableKey roots cs' key := by
  induction h with
  | root he => exact ReachableKey.root he
  | dependency hc _ hr ih => exact ReachableKey.dependency (hsub _ hc) ih hr

/-- The selected candidates. -/
def ResolutionState.candidates (state : ResolutionState) : List LeanPackageCandidateV1 :=
  state.selected.map SelectedCandidate.candidate

/-- The shadow a declared requirement leaves: none if it is the winner. -/
def ResolutionState.shadow_of (state : ResolutionState) (e : Declared) :
    Option LeanShadowDecisionV1 :=
  (state.get e.2.key).bind fun entry =>
    if entry.winner = e.1 then none
    else some ⟨e.2.key, entry.candidate.identity, entry.winner, e.1⟩

/-- **The loop invariant.** `done` are the requirements selected so far, `parents`
the packages whose requirements are among them. -/
structure SelectionInvariant (request : LeanResolutionRequestV1)
    (registry : List LeanPackageCandidateV1) (roots : List Declared) (state : ResolutionState)
    (done : List Declared) (parents : List PackageKeyV1) : Prop where
  distinct : (state.selected.map SelectedCandidate.key).Nodup
  order : state.resolution_order = state.selected.map SelectedCandidate.key
  queued : state.resolution_order = parents ++ state.queue
  origins : (done.map Prod.fst).Nodup
  satisfied : ∀ e ∈ done, ∃ entry, state.get e.2.key = some entry ∧
    request_matches_candidate e.2.source entry.candidate = true
  winners : ∀ entry ∈ state.selected, ∃ e ∈ done, e.1 = entry.winner ∧ e.2.key = entry.key ∧
    matching request registry e.2 = [entry.candidate]
  accounted : state.shadows = done.filterMap state.shadow_of
  reachable : ∀ entry ∈ state.selected, ReachableKey roots state.candidates entry.key

section Invariant

variable {request : LeanResolutionRequestV1} {registry : List LeanPackageCandidateV1}
  {roots : List Declared}

theorem SelectionInvariant.start :
    SelectionInvariant request registry roots ⟨[], [], [], []⟩ [] [] where
  distinct := List.nodup_nil
  order := rfl
  queued := rfl
  origins := List.nodup_nil
  satisfied := fun _ he => absurd he List.not_mem_nil
  winners := fun _ he => absurd he List.not_mem_nil
  accounted := rfl
  reachable := fun _ he => absurd he List.not_mem_nil

/-- The shadow of a satisfied requirement does not change when more is
selected. -/
theorem shadow_of_append {state state' : ResolutionState} {more : List SelectedCandidate}
    (hsel : state'.selected = state.selected ++ more) {e : Declared} {entry : SelectedCandidate}
    (hget : state.get e.2.key = some entry) : state'.shadow_of e = state.shadow_of e := by
  unfold ResolutionState.shadow_of
  rw [hget, get_append hsel hget]

/-- **One step.** -/
theorem SelectionInvariant.step {state state' : ResolutionState} {done : List Declared}
    {parents : List PackageKeyV1} {e : Declared}
    (hinv : SelectionInvariant request registry roots state done parents)
    (hfresh : e.1 ∉ done.map Prod.fst) (hreach : ReachableKey roots state.candidates e.2.key)
    (h : select_requirement request registry state e.1 e.2 = .ok state') :
    SelectionInvariant request registry roots state' (done ++ [e]) parents ∧
      ∃ more, state'.selected = state.selected ++ more := by
  have horigins : ((done ++ [e]).map Prod.fst).Nodup := by
    rw [List.map_append, List.map_singleton, List.nodup_append]
    refine ⟨hinv.origins, List.nodup_singleton _, ?_⟩
    intro a ha b hb hab
    rw [List.mem_singleton] at hb
    exact hfresh (by rw [← hb, ← hab]; exact ha)
  rcases select_requirement_cases h with ⟨existing, hget, hmatch, rfl⟩ | ⟨candidate, hget, honly, rfl⟩
  · -- The package is selected: `e` leaves a shadow, since its origin is new.
    have hexisting := get_eq_some hget
    have hwinner : existing.winner ≠ e.1 := by
      obtain ⟨w, hw, hworigin, -, -⟩ := hinv.winners existing hexisting.1
      intro heq
      exact hfresh (by rw [← heq, ← hworigin]; exact List.mem_map_of_mem hw)
    refine ⟨⟨hinv.distinct, hinv.order, hinv.queued, horigins, ?_, ?_, ?_, hinv.reachable⟩,
      [], (List.append_nil _).symm⟩
    · intro d hd
      rcases List.mem_append.mp hd with hd | hd
      · exact hinv.satisfied d hd
      · rw [List.mem_singleton] at hd
        subst hd
        exact ⟨existing, hget, hmatch⟩
    · intro entry hentry
      obtain ⟨w, hw, hrest⟩ := hinv.winners entry hentry
      exact ⟨w, List.mem_append_left _ hw, hrest⟩
    · have hshadow : state.shadow_of e =
          some ⟨e.2.key, existing.candidate.identity, existing.winner, e.1⟩ := by
        unfold ResolutionState.shadow_of
        rw [hget]
        exact if_neg hwinner
      show state.shadows ++ _ = (done ++ [e]).filterMap state.shadow_of
      rw [List.filterMap_append, ← hinv.accounted, List.filterMap_cons_some hshadow,
        List.filterMap_nil]
  · -- The package is new: `e` is its winner and leaves no shadow.
    have hcand := mem_matching.mp (by rw [honly]; exact List.mem_singleton_self candidate)
    obtain ⟨-, hkey, hmatch, -⟩ := hcand
    have hnew := get_eq_none hget
    have hsel : (state.select candidate e.1).selected = state.selected ++ [⟨candidate, e.1⟩] := rfl
    have hdistinct : ((state.select candidate e.1).selected.map SelectedCandidate.key).Nodup := by
      rw [hsel, List.map_append, List.map_singleton, List.nodup_append]
      refine ⟨hinv.distinct, List.nodup_singleton _, ?_⟩
      intro a ha b hb hab
      obtain ⟨entry, hentry, rfl⟩ := List.mem_map.mp ha
      rw [List.mem_singleton] at hb
      exact hnew entry hentry (by rw [hab, hb]; exact hkey)
    have hself : (state.select candidate e.1).get e.2.key = some ⟨candidate, e.1⟩ := by
      have hmem : (⟨candidate, e.1⟩ : SelectedCandidate) ∈ (state.select candidate e.1).selected :=
        List.mem_append_right _ (List.mem_singleton_self _)
      rw [← hkey]
      exact get_of_mem hdistinct hmem
    have hmono : ∀ c ∈ state.candidates, c ∈ (state.select candidate e.1).candidates := by
      intro c hc
      rw [ResolutionState.candidates, hsel, List.map_append]
      exact List.mem_append_left _ hc
    refine ⟨⟨hdistinct, ?_, ?_, horigins, ?_, ?_, ?_, ?_⟩, _, hsel⟩
    · rw [hsel, List.map_append, ← hinv.order]
      rfl
    · show state.resolution_order ++ _ = parents ++ (state.queue ++ _)
      rw [hinv.queued, List.append_assoc]
    · intro d hd
      rcases List.mem_append.mp hd with hd | hd
      · obtain ⟨entry, hentry, hm⟩ := hinv.satisfied d hd
        exact ⟨entry, get_append hsel hentry, hm⟩
      · rw [List.mem_singleton] at hd
        subst hd
        exact ⟨⟨candidate, d.1⟩, hself, hmatch⟩
    · intro entry hentry
      rcases List.mem_append.mp hentry with hentry | hentry
      · obtain ⟨w, hw, hrest⟩ := hinv.winners entry hentry
        exact ⟨w, List.mem_append_left _ hw, hrest⟩
      · rw [List.mem_singleton] at hentry
        subst hentry
        exact ⟨e, List.mem_append_right _ (List.mem_singleton_self e), rfl, hkey.symm, honly⟩
    · have hnone : (state.select candidate e.1).shadow_of e = none := by
        unfold ResolutionState.shadow_of
        rw [hself]
        exact if_pos rfl
      have hold : done.filterMap (state.select candidate e.1).shadow_of =
          done.filterMap state.shadow_of := by
        refine List.filterMap_congr fun d hd => ?_
        obtain ⟨entry, hentry, -⟩ := hinv.satisfied d hd
        exact shadow_of_append hsel hentry
      show state.shadows = _
      rw [List.filterMap_append, hold, ← hinv.accounted, List.filterMap_cons_none hnone,
        List.filterMap_nil, List.append_nil]
    · intro entry hentry
      rcases List.mem_append.mp hentry with hentry | hentry
      · exact (hinv.reachable entry hentry).mono hmono
      · rw [List.mem_singleton] at hentry
        subst hentry
        have hnewkey := hreach.mono hmono
        rw [← hkey] at hnewkey
        exact hnewkey

/-- **A list of requirements.** They are selected last declared first. -/
theorem SelectionInvariant.select_all {state state' : ResolutionState} {done reqs : List Declared}
    {parents : List PackageKeyV1}
    (hinv : SelectionInvariant request registry roots state done parents)
    (hnodup : (reqs.map Prod.fst).Nodup) (hfresh : ∀ e ∈ reqs, e.1 ∉ done.map Prod.fst)
    (hreach : ∀ e ∈ reqs, ReachableKey roots state.candidates e.2.key)
    (h : select_all request registry state reqs = .ok state') :
    SelectionInvariant request registry roots state' (done ++ reqs.reverse) parents ∧
      ∃ more, state'.selected = state.selected ++ more := by
  unfold Resolver.select_all at h
  have hall : ((done ++ reqs.reverse).map Prod.fst).Nodup := by
    rw [List.map_append, List.map_reverse, List.nodup_append]
    refine ⟨hinv.origins, List.nodup_reverse.mpr hnodup, ?_⟩
    intro a ha b hb hab
    obtain ⟨e, he, rfl⟩ := List.mem_map.mp (List.mem_reverse.mp hb)
    exact hfresh e he (by rw [← hab]; exact ha)
  -- The fold keeps the invariant for the requirements it has consumed.
  refine foldlM_invariant (fun pre c =>
      SelectionInvariant request registry roots c (done ++ pre) parents ∧
        ∃ more, c.selected = state.selected ++ more) ?_ ?_ h
  · rintro pre e c c' ⟨rest, hpre⟩ ⟨hc, more, hmore⟩ hstep
    have he : e ∈ reqs := by
      rw [← List.mem_reverse, ← hpre]
      exact List.mem_append_left _ (List.mem_append_right _ (List.mem_singleton_self e))
    have hnew : e.1 ∉ (done ++ pre).map Prod.fst := by
      rw [← hpre, ← List.append_assoc, ← List.append_assoc, List.map_append, List.nodup_append]
        at hall
      have hfront := hall.1
      rw [List.map_append, List.nodup_append] at hfront
      intro hmem
      exact hfront.2.2 _ hmem _ (List.mem_singleton_self e.1) rfl
    have hsub : ∀ x ∈ state.candidates, x ∈ c.candidates := by
      intro x hx
      rw [ResolutionState.candidates, hmore, List.map_append]
      exact List.mem_append_left _ hx
    obtain ⟨hc', more', hmore'⟩ := hc.step hnew ((hreach e he).mono hsub) hstep
    rw [List.append_assoc] at hc'
    exact ⟨hc', more ++ more', by rw [hmore', hmore, List.append_assoc]⟩
  · exact ⟨by rw [List.append_nil]; exact hinv, [], (List.append_nil _).symm⟩

/-! ## The queue loop -/

/-- The requirements of a selected package. -/
def ResolutionState.requirements_of (state : ResolutionState) (key : PackageKeyV1) :
    List Declared :=
  match state.get key with
  | none => []
  | some entry => package_requirements key entry.candidate

/-- The requirements that have been selected once `parents` are worked off. -/
def ResolutionState.worked_off (state : ResolutionState) (roots : List Declared)
    (parents : List PackageKeyV1) : List Declared :=
  roots.reverse ++ parents.flatMap fun key => (state.requirements_of key).reverse

theorem package_requirements_origins (key : PackageKeyV1) (candidate : LeanPackageCandidateV1) :
    ((package_requirements key candidate).map Prod.fst).Nodup := by
  have hmap : (package_requirements key candidate).map Prod.fst =
      (candidate.dependencies.zipIdx.map Prod.snd).map (LeanResolutionOriginV1.Package key) := by
    unfold package_requirements
    rw [List.map_map, List.map_map]
    rfl
  rw [hmap, List.zipIdx_map_snd]
  refine List.Nodup.map ?_ List.nodup_range'
  intro i j hij
  injection hij

theorem mem_package_requirements {key : PackageKeyV1} {candidate : LeanPackageCandidateV1}
    {e : Declared} (h : e ∈ package_requirements key candidate) :
    (∃ i, e.1 = .Package key i) ∧ e.2 ∈ candidate.dependencies := by
  unfold package_requirements at h
  obtain ⟨⟨requirement, index⟩, hmem, rfl⟩ := List.mem_map.mp h
  exact ⟨⟨index, rfl⟩, (List.mem_zipIdx' hmem).2 ▸ List.getElem_mem _⟩

/-- Every dependency is among the requirements. -/
theorem exists_package_requirement (key : PackageKeyV1) {candidate : LeanPackageCandidateV1}
    {requirement : LeanDependencyRequirementV1} (h : requirement ∈ candidate.dependencies) :
    ∃ e ∈ package_requirements key candidate, e.2 = requirement := by
  obtain ⟨index, hlt, hindex⟩ := List.mem_iff_getElem.mp h
  refine ⟨(.Package key index, requirement), ?_, rfl⟩
  unfold package_requirements
  refine List.mem_map.mpr ⟨(requirement, index), ?_, rfl⟩
  rw [List.mk_mem_zipIdx_iff_getElem?, List.getElem?_eq_getElem hlt, hindex]

/-- Origins of the roots: their declaration indices, each once. -/
def RootOrigins (roots : List Declared) : Prop :=
  (roots.map Prod.fst).Nodup ∧ ∀ e ∈ roots, ∃ i, e.1 = .Root i

/-- The requirements of a selected package do not change when more is selected. -/
theorem requirements_of_append {state state' : ResolutionState} {more : List SelectedCandidate}
    (hsel : state'.selected = state.selected ++ more) {key : PackageKeyV1}
    {entry : SelectedCandidate} (hget : state.get key = some entry) :
    state'.requirements_of key = state.requirements_of key := by
  unfold ResolutionState.requirements_of
  rw [hget, get_append hsel hget]

/-- Selected keys are found. -/
theorem SelectionInvariant.get_of_order {state : ResolutionState} {done : List Declared}
    {parents : List PackageKeyV1}
    (hinv : SelectionInvariant request registry roots state done parents) {key : PackageKeyV1}
    (hkey : key ∈ state.resolution_order) : ∃ entry, state.get key = some entry := by
  rw [hinv.order] at hkey
  obtain ⟨entry, hentry, rfl⟩ := List.mem_map.mp hkey
  exact ⟨entry, get_of_mem hinv.distinct hentry⟩

/-- The origin of a worked-off requirement is a root or a worked-off package. -/
theorem worked_off_origin {state : ResolutionState} (hroots : RootOrigins roots)
    {parents : List PackageKeyV1} {e : Declared} (he : e ∈ state.worked_off roots parents) :
    (∃ i, e.1 = .Root i) ∨ ∃ key ∈ parents, ∃ i, e.1 = .Package key i := by
  rcases List.mem_append.mp he with he | he
  · exact Or.inl (hroots.2 e (List.mem_reverse.mp he))
  · obtain ⟨key, hkey, he⟩ := List.mem_flatMap.mp he
    rw [List.mem_reverse] at he
    unfold ResolutionState.requirements_of at he
    split at he
    · exact absurd he List.not_mem_nil
    · exact Or.inr ⟨key, hkey, (mem_package_requirements he).1⟩

/-- **One round of the queue.** Working off the first queued package keeps the
invariant, with its requirements added to the worked-off ones. -/
theorem SelectionInvariant.round (hroots : RootOrigins roots) {state state' : ResolutionState}
    {parents queue : List PackageKeyV1} {parent_key : PackageKeyV1} {parent : SelectedCandidate}
    (hinv : SelectionInvariant request registry roots state (state.worked_off roots parents) parents)
    (hqueue : state.queue = parent_key :: queue) (hget : state.get parent_key = some parent)
    (h : Resolver.select_all request registry { state with queue }
      (package_requirements parent_key parent.candidate) = .ok state') :
    SelectionInvariant request registry roots state'
      (state'.worked_off roots (parents ++ [parent_key])) (parents ++ [parent_key]) ∧
      ∃ more, state'.selected = state.selected ++ more := by
  have horder : state.resolution_order = (parents ++ [parent_key]) ++ queue := by
    rw [hinv.queued, hqueue, List.append_assoc]
    rfl
  have hdistinct : ((parents ++ [parent_key]) ++ queue).Nodup := by
    rw [← horder, hinv.order]
    exact hinv.distinct
  have hpopped : SelectionInvariant request registry roots { state with queue }
      (state.worked_off roots parents) (parents ++ [parent_key]) :=
    ⟨hinv.distinct, hinv.order, horder, hinv.origins, hinv.satisfied, hinv.winners, hinv.accounted,
      hinv.reachable⟩
  have hparent := get_eq_some hget
  have hnotin : parent_key ∉ parents := by
    rw [List.nodup_append] at hdistinct
    have hfront := hdistinct.1
    rw [List.nodup_append] at hfront
    exact fun hmem => hfront.2.2 _ hmem _ (List.mem_singleton_self _) rfl
  obtain ⟨hnext, more, hmore⟩ := hpopped.select_all
    (package_requirements_origins parent_key parent.candidate) (by
      intro e he hold
      obtain ⟨⟨i, hi⟩, -⟩ := mem_package_requirements he
      obtain ⟨d, hd, hde⟩ := List.mem_map.mp hold
      rcases worked_off_origin hroots hd with ⟨j, hj⟩ | ⟨key, hkey, j, hj⟩
      · rw [hde, hi] at hj
        cases hj
      · rw [hde, hi] at hj
        injection hj with hsame
        exact hnotin (by rw [hsame]; exact hkey)) (by
      intro e he
      have hreach := hinv.reachable parent hparent.1
      exact ReachableKey.dependency (List.mem_map_of_mem hparent.1) hreach
        (mem_package_requirements he).2) h
  have hsel : state'.selected = state.selected ++ more := hmore
  refine ⟨?_, more, hsel⟩
  have hsame : state'.worked_off roots (parents ++ [parent_key]) =
      state.worked_off roots parents ++ (package_requirements parent_key parent.candidate).reverse := by
    unfold ResolutionState.worked_off
    rw [List.flatMap_append, List.append_assoc]
    congr 2
    · refine List.flatMap_congr fun key hkey => ?_
      have hin : key ∈ state.resolution_order := by
        rw [horder]
        exact List.mem_append_left _ (List.mem_append_left _ hkey)
      obtain ⟨entry, hentry⟩ := hinv.get_of_order hin
      rw [requirements_of_append hsel hentry]
    · have hself : state'.requirements_of parent_key =
          package_requirements parent_key parent.candidate := by
        rw [requirements_of_append hsel hget]
        unfold ResolutionState.requirements_of
        rw [hget]
      rw [List.flatMap_singleton, hself]
  rw [hsame]
  exact hnext

/-- **The whole loop.** When the loop ends, every selected package is worked
off. -/
theorem SelectionInvariant.resolve_queue (hroots : RootOrigins roots) (fuel : ℕ)
    {state state' : ResolutionState} {parents : List PackageKeyV1}
    (hinv : SelectionInvariant request registry roots state (state.worked_off roots parents) parents)
    (h : Resolver.resolve_queue request registry fuel state = .ok state') :
    SelectionInvariant request registry roots state'
      (state'.worked_off roots state'.resolution_order) state'.resolution_order := by
  induction fuel generalizing state parents with
  | zero =>
    unfold Resolver.resolve_queue at h
    split at h
    · next hempty =>
      rw [← Except.ok.inj h]
      have hall : parents = state.resolution_order := by
        rw [hinv.queued, hempty, List.append_nil]
      rw [← hall]
      exact hinv
    · cases h
  | succ fuel ih =>
    unfold Resolver.resolve_queue at h
    split at h
    · next hempty =>
      rw [← Except.ok.inj h]
      have hall : parents = state.resolution_order := by
        rw [hinv.queued, hempty, List.append_nil]
      rw [← hall]
      exact hinv
    · next parent_key queue hqueue =>
      split at h
      · cases h
      · next parent hget =>
        obtain ⟨next, hnext, h⟩ := bind_eq_ok.mp h
        exact ih (hinv.round hroots hqueue hget hnext).1 h

/-- Every selected package is a candidate of the registry. -/
theorem SelectionInvariant.selected_le {state : ResolutionState} {done : List Declared}
    {parents : List PackageKeyV1}
    (hinv : SelectionInvariant request registry roots state done parents) :
    state.selected.length ≤ registry.length := by
  have hnodup : state.candidates.Nodup := by
    have hkeys : (state.candidates.map LeanPackageCandidateV1.key).Nodup := by
      rw [ResolutionState.candidates, List.map_map]
      exact hinv.distinct
    exact List.Nodup.of_map _ hkeys
  have hsub : state.candidates ⊆ registry := by
    intro c hc
    obtain ⟨entry, hentry, rfl⟩ := List.mem_map.mp hc
    obtain ⟨w, -, -, -, honly⟩ := hinv.winners entry hentry
    exact (mem_matching.mp (by rw [honly]; exact List.mem_singleton_self _)).1
  have hlen := (List.subperm_of_subset hnodup hsub).length_le
  rwa [ResolutionState.candidates, List.length_map] at hlen

/-- **The fuel is enough.** With as much fuel as there are candidates that are
not worked off, more fuel changes nothing: the loop ends because its queue is
empty. -/
theorem SelectionInvariant.resolve_queue_fuel (hroots : RootOrigins roots) (fuel extra : ℕ)
    {state : ResolutionState} {parents : List PackageKeyV1}
    (hinv : SelectionInvariant request registry roots state (state.worked_off roots parents) parents)
    (hfuel : registry.length ≤ parents.length + fuel) :
    Resolver.resolve_queue request registry (fuel + extra) state =
      Resolver.resolve_queue request registry fuel state := by
  induction fuel generalizing state parents with
  | zero =>
    have hempty : state.queue = [] := by
      have hle := hinv.selected_le
      have hlen := congrArg List.length hinv.queued
      rw [hinv.order, List.length_map, List.length_append] at hlen
      exact List.length_eq_zero_iff.mp (by omega)
    cases extra with
    | zero => rfl
    | succ extra =>
      simp only [Resolver.resolve_queue, hempty, if_true]
  | succ fuel ih =>
    rw [Nat.succ_add]
    unfold Resolver.resolve_queue
    split
    · rfl
    · next parent_key queue hqueue =>
      split
      · rfl
      · next parent hget =>
        cases hnext : Resolver.select_all request registry { state with queue }
            (package_requirements parent_key parent.candidate) with
        | error e => rfl
        | ok next =>
          have hround := (hinv.round hroots hqueue hget hnext).1
          refine ih hround ?_
          rw [List.length_append, List.length_singleton]
          omega

end Invariant

/-! ## The resolved graph -/

/-- One root requirement. -/
theorem root_requirement_ok {x : LakeRootDependencyV1 × ℕ} {e : Declared}
    (h : (do
      let source ← LeanSourceRequestV1.from_root x.1
      return ((.Root x.2, ⟨x.1.key, source⟩) : Declared) : ResolveResult Declared) = .ok e) :
    e.1 = .Root x.2 ∧ e.2.key = x.1.key ∧ LeanSourceRequestV1.from_root x.1 = .ok e.2.source := by
  obtain ⟨source, hsource, h⟩ := bind_eq_ok.mp h
  cases h
  exact ⟨rfl, rfl, hsource⟩

/-- The root requirements are the root dependencies with their sources. -/
theorem root_requirements_forall₂ {root : LakeRootDeclarationV1} {roots : List Declared}
    (h : root_requirements root = .ok roots) :
    List.Forall₂ (fun (x : LakeRootDependencyV1 × ℕ) e => e.1 = .Root x.2 ∧ e.2.key = x.1.key ∧
      LeanSourceRequestV1.from_root x.1 = .ok e.2.source) root.dependencies.zipIdx roots := by
  have hall := mapM_eq_ok_iff.mp h
  exact hall.imp fun _ _ he => root_requirement_ok he

theorem root_requirements_origins {root : LakeRootDeclarationV1} {roots : List Declared}
    (h : root_requirements root = .ok roots) : RootOrigins roots := by
  have hall := root_requirements_forall₂ h
  have horigins : roots.map Prod.fst =
      (root.dependencies.zipIdx.map Prod.snd).map LeanResolutionOriginV1.Root := by
    clear h
    generalize root.dependencies.zipIdx = indexed at hall
    induction hall with
    | nil => rfl
    | cons he _ ih => rw [List.map_cons, ih, he.1]; rfl
  refine ⟨?_, ?_⟩
  · rw [horigins, List.zipIdx_map_snd]
    refine List.Nodup.map ?_ List.nodup_range'
    intro i j hij
    injection hij
  · intro e he
    have hmem : e.1 ∈ roots.map Prod.fst := List.mem_map_of_mem he
    rw [horigins] at hmem
    obtain ⟨i, -, hi⟩ := List.mem_map.mp hmem
    exact ⟨i, hi.symm⟩

/-- Every root dependency has its requirement. -/
theorem exists_root_requirement {root : LakeRootDeclarationV1} {roots : List Declared}
    (h : root_requirements root = .ok roots) {dependency : LakeRootDependencyV1}
    (hdependency : dependency ∈ root.dependencies) : ∃ e ∈ roots, e.2.key = dependency.key ∧
      LeanSourceRequestV1.from_root dependency = .ok e.2.source := by
  have hall := root_requirements_forall₂ h
  obtain ⟨index, hlt, hindex⟩ := List.mem_iff_getElem.mp hdependency
  have hmem : (dependency, index) ∈ root.dependencies.zipIdx := by
    rw [List.mk_mem_zipIdx_iff_getElem?, List.getElem?_eq_getElem hlt, hindex]
  clear h
  generalize root.dependencies.zipIdx = indexed at hall hmem
  induction hall with
  | nil => exact absurd hmem List.not_mem_nil
  | cons he _ ih =>
    rcases List.mem_cons.mp hmem with rfl | hmem
    · exact ⟨_, List.mem_cons_self, he.2⟩
    · obtain ⟨e, hein, hspec⟩ := ih hmem
      exact ⟨e, List.mem_cons_of_mem _ hein, hspec⟩

/-- Every root requirement is one of a root dependency. -/
theorem root_requirement_declared {root : LakeRootDeclarationV1} {roots : List Declared}
    (h : root_requirements root = .ok roots) {e : Declared} (he : e ∈ roots) :
    ∃ dependency ∈ root.dependencies, e.2.key = dependency.key ∧
      LeanSourceRequestV1.from_root dependency = .ok e.2.source := by
  have hall := root_requirements_forall₂ h
  have hdeps : root.dependencies.zipIdx.map Prod.fst = root.dependencies := List.zipIdx_map_fst 0 _
  rw [← hdeps]
  clear h hdeps
  generalize root.dependencies.zipIdx = indexed at hall
  induction hall with
  | nil => exact absurd he List.not_mem_nil
  | @cons x _ _ _ hx _ ih =>
    rcases List.mem_cons.mp he with rfl | he
    · exact ⟨x.1, List.mem_cons_self, hx.2⟩
    · obtain ⟨dependency, hin, hspec⟩ := ih he
      exact ⟨dependency, List.mem_cons_of_mem _ hin, hspec⟩

/-- All requirements of a graph: those of the root and of every package. -/
def graph_requirements (roots : List Declared) (packages : List LeanResolvedPackageV1) :
    List Declared :=
  roots ++ packages.flatMap fun package => package_requirements package.key package.candidate

/-- The shadow entry that a requirement leaves under the given winners. -/
def shadow_entry (packages : List LeanResolvedPackageV1)
    (winner : PackageKeyV1 → LeanResolutionOriginV1) (e : Declared) : Option LeanShadowDecisionV1 :=
  (package_of packages e.2.key).bind fun package =>
    if winner e.2.key = e.1 then none
    else some ⟨e.2.key, package.candidate.identity, winner e.2.key, e.1⟩

/-- What the resolution has computed when it succeeds. -/
theorem resolve_parts {request : LeanResolutionRequestV1} {candidates : List LeanPackageCandidateV1}
    {graph : LeanResolutionGraphV1} (h : resolve_lean_dependencies_v1 request candidates = .ok graph) :
    ∃ roots state, root_requirements request.root = .ok roots ∧
      SelectionInvariant request (sort_by_key candidate_key candidates) roots state
        (state.worked_off roots state.resolution_order) state.resolution_order ∧
      graph.packages = sort_by_key LeanResolvedPackageV1.key (state.selected.map resolved_package) ∧
      graph.resolution_order = state.resolution_order ∧
      graph.shadows = sort_by_key shadow_key state.shadows ∧
      validate_mode_result request graph.packages = .ok graph.impact_closure := by
  unfold resolve_lean_dependencies_v1 at h
  obtain ⟨_, -, h⟩ := bind_eq_ok.mp h
  obtain ⟨_, -, h⟩ := bind_eq_ok.mp h
  obtain ⟨roots, hroots, h⟩ := bind_eq_ok.mp h
  obtain ⟨state, hselect, h⟩ := bind_eq_ok.mp h
  obtain ⟨final, hloop, h⟩ := bind_eq_ok.mp h
  obtain ⟨_, -, h⟩ := bind_eq_ok.mp h
  obtain ⟨_, -, h⟩ := bind_eq_ok.mp h
  obtain ⟨impact, hmode, h⟩ := bind_eq_ok.mp h
  have horigins := root_requirements_origins hroots
  have hempty : SelectionInvariant request (sort_by_key candidate_key candidates) roots
      ⟨[], [], [], []⟩ [] [] := SelectionInvariant.start
  obtain ⟨hstart, -⟩ := hempty.select_all horigins.1
    (fun _ _ hmem => absurd hmem List.not_mem_nil) (fun _ he => ReachableKey.root he) hselect
  have hfirst : SelectionInvariant request (sort_by_key candidate_key candidates) roots state
      (state.worked_off roots []) [] := by
    unfold ResolutionState.worked_off
    rw [List.flatMap_nil, List.append_nil]
    exact hstart
  have hend := hfirst.resolve_queue horigins _ hloop
  cases h
  exact ⟨roots, final, hroots, hend, rfl, rfl, rfl, hmode⟩

/-- The graph is made for the toolchain and the root of the request. -/
theorem resolve_roots {request : LeanResolutionRequestV1} {candidates : List LeanPackageCandidateV1}
    {graph : LeanResolutionGraphV1} (h : resolve_lean_dependencies_v1 request candidates = .ok graph) :
    graph.toolchain = request.toolchain ∧
      graph.root_declaration_identity = request.root.identity := by
  unfold resolve_lean_dependencies_v1 at h
  obtain ⟨_, -, h⟩ := bind_eq_ok.mp h
  obtain ⟨_, -, h⟩ := bind_eq_ok.mp h
  obtain ⟨_, -, h⟩ := bind_eq_ok.mp h
  obtain ⟨_, -, h⟩ := bind_eq_ok.mp h
  obtain ⟨_, -, h⟩ := bind_eq_ok.mp h
  obtain ⟨_, -, h⟩ := bind_eq_ok.mp h
  obtain ⟨_, -, h⟩ := bind_eq_ok.mp h
  obtain ⟨_, -, h⟩ := bind_eq_ok.mp h
  cases h
  exact ⟨rfl, rfl⟩

/-- A resolved package is a candidate of the registry with the keys it requires. -/
theorem resolve_candidates {request : LeanResolutionRequestV1}
    {candidates : List LeanPackageCandidateV1} {graph : LeanResolutionGraphV1}
    (h : resolve_lean_dependencies_v1 request candidates = .ok graph)
    {package : LeanResolvedPackageV1} (hpackage : package ∈ graph.packages) :
    package.candidate ∈ candidates ∧ package.dependencies = dependency_keys package.candidate := by
  obtain ⟨roots, state, -, hinv, hpackages, -⟩ := resolve_parts h
  rw [hpackages, mem_sort_by_key] at hpackage
  obtain ⟨entry, hentry, rfl⟩ := List.mem_map.mp hpackage
  obtain ⟨e, -, -, -, hmatching⟩ := hinv.winners entry hentry
  have hmem : entry.candidate ∈ matching request (sort_by_key candidate_key candidates) e.2 := by
    rw [hmatching]
    exact List.mem_singleton_self _
  have hregistry := (List.mem_filter.mp (List.mem_filter.mp hmem).1).1
  exact ⟨(mem_sort_by_key _).mp hregistry, rfl⟩

/-- Resolved packages and selected candidates are the same things. -/
theorem mem_resolved_packages {state : ResolutionState} {package : LeanResolvedPackageV1} :
    package ∈ sort_by_key LeanResolvedPackageV1.key (state.selected.map resolved_package) ↔
      ∃ entry ∈ state.selected, resolved_package entry = package := by
  rw [mem_sort_by_key, List.mem_map]

theorem resolved_packages_sorted {state : ResolutionState}
    (h : (state.selected.map SelectedCandidate.key).Nodup) :
    StrictlySorted LeanResolvedPackageV1.key
      (sort_by_key LeanResolvedPackageV1.key (state.selected.map resolved_package)) := by
  have hle := sort_by_key_sorted LeanResolvedPackageV1.key (state.selected.map resolved_package)
  have hperm := sort_by_key_perm LeanResolvedPackageV1.key (state.selected.map resolved_package)
  have hnodup : ((sort_by_key LeanResolvedPackageV1.key (state.selected.map resolved_package)).map
      LeanResolvedPackageV1.key).Nodup := by
    refine (hperm.map LeanResolvedPackageV1.key).nodup_iff.mpr ?_
    rw [List.map_map]
    exact h
  have hne : (sort_by_key LeanResolvedPackageV1.key (state.selected.map resolved_package)).Pairwise
      fun a b => a.key ≠ b.key := List.pairwise_map.mp hnodup
  exact (hle.and hne).imp fun hab => lt_of_le_of_ne hab.1 hab.2

/-- A key is found among the packages exactly when it is selected. -/
theorem package_of_resolved {state : ResolutionState}
    (h : (state.selected.map SelectedCandidate.key).Nodup) (key : PackageKeyV1) :
    package_of (sort_by_key LeanResolvedPackageV1.key (state.selected.map resolved_package)) key =
      (state.get key).map resolved_package := by
  have hsorted := resolved_packages_sorted h
  cases hget : state.get key with
  | none =>
    refine find_key_none.mpr ?_
    intro package hpackage
    obtain ⟨entry, hentry, rfl⟩ := mem_resolved_packages.mp hpackage
    exact get_eq_none hget entry hentry
  | some entry =>
    obtain ⟨hentry, rfl⟩ := get_eq_some hget
    have hmem := mem_resolved_packages.mpr ⟨entry, hentry, rfl⟩
    exact find_key_of_mem hsorted.nodup hmem

/-! ## The result -/

/-- **What a resolved graph is.** `roots` are the requirements of the root
declaration; `winner` says which requirement selected a key. -/
structure CompleteGraph (roots : List Declared) (candidates : List LeanPackageCandidateV1)
    (graph : LeanResolutionGraphV1) (winner : PackageKeyV1 → LeanResolutionOriginV1) : Prop where
  packages_sorted : StrictlySorted LeanResolvedPackageV1.key graph.packages
  packages_supplied : ∀ package ∈ graph.packages,
    package.candidate ∈ candidates ∧ package.dependencies = dependency_keys package.candidate
  closure : ∀ key, (∃ package ∈ graph.packages, package.key = key) ↔
    ReachableKey roots (graph.packages.map LeanResolvedPackageV1.candidate) key
  matched : ∀ e ∈ graph_requirements roots graph.packages, ∃ package ∈ graph.packages,
    package.key = e.2.key ∧ request_matches_candidate e.2.source package.candidate = true
  order_nodup : graph.resolution_order.Nodup
  order_complete : ∀ key, key ∈ graph.resolution_order ↔
    ∃ package ∈ graph.packages, package.key = key
  origins_distinct : ((graph_requirements roots graph.packages).map Prod.fst).Nodup
  winner_declared : ∀ package ∈ graph.packages, ∃ e ∈ graph_requirements roots graph.packages,
    e.1 = winner package.key ∧ e.2.key = package.key
  shadows_accounted : graph.shadows.Perm
    ((graph_requirements roots graph.packages).filterMap (shadow_entry graph.packages winner))

/-- When every selected package is worked off, the worked-off requirements are
those of the graph. -/
theorem worked_off_perm (roots : List Declared) {state : ResolutionState}
    (hdistinct : (state.selected.map SelectedCandidate.key).Nodup)
    (horder : state.resolution_order = state.selected.map SelectedCandidate.key) :
    (state.worked_off roots state.resolution_order).Perm (graph_requirements roots
      (sort_by_key LeanResolvedPackageV1.key (state.selected.map resolved_package))) := by
  have hown : ∀ entry ∈ state.selected, (state.requirements_of entry.key).reverse.Perm
      (package_requirements entry.key entry.candidate) := by
    intro entry hentry
    unfold ResolutionState.requirements_of
    rw [get_of_mem hdistinct hentry]
    exact List.reverse_perm _
  have hselected : (state.selected.flatMap fun entry =>
      (state.requirements_of entry.key).reverse).Perm
      (state.selected.flatMap fun entry => package_requirements entry.key entry.candidate) :=
    List.Perm.flatMap_left _ hown
  have hsorted : (state.selected.flatMap fun entry =>
      package_requirements entry.key entry.candidate).Perm
      ((sort_by_key LeanResolvedPackageV1.key (state.selected.map resolved_package)).flatMap
        fun package => package_requirements package.key package.candidate) := by
    have hperm := sort_by_key_perm LeanResolvedPackageV1.key (state.selected.map resolved_package)
    have hflat := (hperm.flatMap_right
      fun package => package_requirements package.key package.candidate).symm
    rw [List.flatMap_map] at hflat
    exact hflat
  unfold ResolutionState.worked_off graph_requirements
  rw [horder, List.flatMap_map]
  exact (List.reverse_perm _).append (hselected.trans hsorted)

/-- A selected key is the key of a resolved package. -/
theorem exists_package_iff {state : ResolutionState} (key : PackageKeyV1) :
    (∃ package ∈ sort_by_key LeanResolvedPackageV1.key (state.selected.map resolved_package),
      package.key = key) ↔ key ∈ state.selected.map SelectedCandidate.key := by
  rw [List.mem_map]
  constructor
  · rintro ⟨package, hpackage, hkey⟩
    obtain ⟨entry, hentry, rfl⟩ := mem_resolved_packages.mp hpackage
    exact ⟨entry, hentry, hkey⟩
  · rintro ⟨entry, hentry, hkey⟩
    exact ⟨_, mem_resolved_packages.mpr ⟨entry, hentry, rfl⟩, hkey⟩

/-- The origin that selected a key. -/
def ResolutionState.winner_of (state : ResolutionState) (key : PackageKeyV1) :
    LeanResolutionOriginV1 :=
  match state.get key with
  | none => .Root 0
  | some entry => entry.winner

/-- The shadow of a requirement read off the state is the one read off the
packages. -/
theorem shadow_entry_resolved {state : ResolutionState}
    (h : (state.selected.map SelectedCandidate.key).Nodup) (e : Declared) :
    shadow_entry (sort_by_key LeanResolvedPackageV1.key (state.selected.map resolved_package))
      state.winner_of e = state.shadow_of e := by
  unfold shadow_entry ResolutionState.shadow_of ResolutionState.winner_of
  rw [package_of_resolved h]
  cases state.get e.2.key with
  | none => rfl
  | some entry => rfl

/-- **A returned graph is complete.** Its packages are the keys that the roots
reach through the selected candidates, each requirement on the way matches the
one package of its key, the order lists every key once, and a requirement is the
winner of its key or has exactly one shadow entry. -/
theorem resolve_complete {request : LeanResolutionRequestV1}
    {candidates : List LeanPackageCandidateV1} {graph : LeanResolutionGraphV1}
    (h : resolve_lean_dependencies_v1 request candidates = .ok graph) :
    ∃ roots winner, root_requirements request.root = .ok roots ∧
      CompleteGraph roots candidates graph winner := by
  obtain ⟨roots, state, hroots, hinv, hpackages, horder, hshadows, -⟩ := resolve_parts h
  have hperm := worked_off_perm roots hinv.distinct hinv.order
  rw [← hpackages] at hperm
  have hselected : ∀ key, (∃ package ∈ graph.packages, package.key = key) ↔
      key ∈ state.selected.map SelectedCandidate.key := by
    intro key
    rw [hpackages]
    exact exists_package_iff key
  have hcandidates : ∀ c, c ∈ state.candidates ↔
      c ∈ graph.packages.map LeanResolvedPackageV1.candidate := by
    intro c
    rw [hpackages, ResolutionState.candidates, List.mem_map, List.mem_map]
    constructor
    · rintro ⟨entry, hentry, rfl⟩
      exact ⟨_, mem_resolved_packages.mpr ⟨entry, hentry, rfl⟩, rfl⟩
    · rintro ⟨package, hpackage, rfl⟩
      obtain ⟨entry, hentry, rfl⟩ := mem_resolved_packages.mp hpackage
      exact ⟨entry, hentry, rfl⟩
  have hmatched : ∀ e ∈ graph_requirements roots graph.packages, ∃ package ∈ graph.packages,
      package.key = e.2.key ∧ request_matches_candidate e.2.source package.candidate = true := by
    intro e he
    obtain ⟨entry, hget, hmatch⟩ := hinv.satisfied e (hperm.mem_iff.mpr he)
    obtain ⟨hentry, hkey⟩ := get_eq_some hget
    refine ⟨resolved_package entry, ?_, hkey, hmatch⟩
    rw [hpackages]
    exact mem_resolved_packages.mpr ⟨entry, hentry, rfl⟩
  refine ⟨roots, state.winner_of, hroots, ?_, ?_, ?_, hmatched, ?_, ?_, ?_, ?_, ?_⟩
  · rw [hpackages]
    exact resolved_packages_sorted hinv.distinct
  · intro package hpackage
    rw [hpackages] at hpackage
    obtain ⟨entry, hentry, rfl⟩ := mem_resolved_packages.mp hpackage
    obtain ⟨w, -, -, -, honly⟩ := hinv.winners entry hentry
    have hmem := mem_matching.mp (by rw [honly]; exact List.mem_singleton_self entry.candidate)
    exact ⟨(mem_sort_by_key candidate_key).mp hmem.1, rfl⟩
  · intro key
    constructor
    · intro hkey
      obtain ⟨entry, hentry, rfl⟩ := List.mem_map.mp ((hselected key).mp hkey)
      exact (hinv.reachable entry hentry).mono fun c hc => (hcandidates c).mp hc
    · -- Along the reachability: each requirement on the way has its package.
      intro hreach
      cases hreach with
      | root he =>
        obtain ⟨package, hpackage, hkey, -⟩ := hmatched _ (List.mem_append_left _ he)
        exact ⟨package, hpackage, hkey⟩
      | @dependency candidate requirement hc _ hr =>
        obtain ⟨package, hpackage, rfl⟩ := List.mem_map.mp hc
        obtain ⟨e, he, rfl⟩ := exists_package_requirement package.key hr
        obtain ⟨found, hfound, hkey, -⟩ := hmatched e
          (List.mem_append_right _ (List.mem_flatMap.mpr ⟨package, hpackage, he⟩))
        exact ⟨found, hfound, hkey⟩
  · rw [horder, hinv.order]
    exact hinv.distinct
  · intro key
    rw [hselected, horder, hinv.order]
  · exact (hperm.map Prod.fst).nodup_iff.mp hinv.origins
  · intro package hpackage
    rw [hpackages] at hpackage
    obtain ⟨entry, hentry, rfl⟩ := mem_resolved_packages.mp hpackage
    obtain ⟨e, he, horigin, hkey, -⟩ := hinv.winners entry hentry
    refine ⟨e, hperm.mem_iff.mp he, ?_, hkey⟩
    have hget := get_of_mem hinv.distinct hentry
    have hwinner : state.winner_of entry.key = entry.winner := by
      unfold ResolutionState.winner_of
      rw [hget]
    exact horigin.trans hwinner.symm
  · have hentries : shadow_entry graph.packages state.winner_of = state.shadow_of := by
      funext e
      rw [hpackages]
      exact shadow_entry_resolved hinv.distinct e
    rw [hshadows, hentries]
    have haccounted := hperm.filterMap state.shadow_of
    rw [← hinv.accounted] at haccounted
    exact (sort_by_key_perm shadow_key state.shadows).trans haccounted

/-! ## A small graph -/

def sample_toolchain : LeanToolchainIdentityV1 where
  lean_toolchain := "leanprover/lean4:v4.20.0".toList
  compiler_githash := List.replicate 40 'a'
  lake_version := "5.0.0".toList
  toolchain_valid := by decide +kernel
  githash_valid := by decide +kernel
  lake_valid := by decide +kernel

theorem sample_toolchain_locked :
    valid_atom sample_toolchain.lean_toolchain Lock.MAX_TEXT_BYTES false = true := by
  decide +kernel

theorem sample_githash_locked : Lock.valid_git_revision sample_toolchain.compiler_githash = true := by
  decide +kernel

theorem sample_lake_locked :
    valid_atom sample_toolchain.lake_version Lock.MAX_NAME_BYTES false = true := by
  decide +kernel

def sample_key_a : PackageKeyV1 := ⟨[], ['a'], no_scope_valid, a_name_valid⟩

def sample_key_b : PackageKeyV1 := ⟨[], ['b'], no_scope_valid, b_name_valid⟩

/-- A path candidate whose snapshot digest is `identity`. -/
def sample_candidate (key : PackageKeyV1) (token : Str) (identity : Sha256)
    (dependencies : List LeanDependencyRequirementV1)
    (htoken : valid_relative_path token = true)
    (hcount : dependencies.length ≤ MAX_DEPENDENCIES_V1) : LeanPackageCandidateV1 where
  key := key
  requested := .Path token htoken
  resolved := .Path token identity htoken
  dependencies := dependencies
  toolchain_candidate := none
  download_integrity := none
  source_tree_sha256 := digest []
  config_sha256 := digest []
  manifest_sha256 := none
  selected_source_identity := identity
  count_bounded := hcount
  pair_valid := by simp [valid_source_pair]

theorem b_relative : valid_relative_path ['b'] = true := by decide +kernel

def sample_candidate_b : LeanPackageCandidateV1 :=
  sample_candidate sample_key_b ['b'] (digest []) [] b_relative (by decide +kernel)

/-- `a` requires `b`. -/
def sample_candidate_a : LeanPackageCandidateV1 :=
  sample_candidate sample_key_a ['a'] (digest [])
    [⟨sample_key_b, .Path ['b'] b_relative⟩] (by decide +kernel) (by decide +kernel)

theorem b_source_valid : valid_dependency_source (.Path ['b']) = true := by decide +kernel

/-- The root requires `a` and `b`, both by path. -/
def sample_root : LakeRootDeclarationV1 where
  root_name := "root".toList
  config_file := "lakefile.toml".toList
  dependencies := [⟨sample_key_a, none, .Path ['a'], no_text_valid _, by decide +kernel⟩,
    ⟨sample_key_b, none, .Path ['b'], no_text_valid _, b_source_valid⟩]
  name_valid := by decide +kernel
  config_valid := Or.inl rfl
  count_bounded := by decide +kernel
  dependencies_sorted := by decide +kernel

theorem empty_update_unfrozen :
    LeanResolutionModeV1.Update [] no_keys_sorted (Nat.zero_le _) = .Frozen →
      (none : Option LeanBunLockV1) ≠ none := fun h => by cases h

theorem no_lock_matches (root : LakeRootDeclarationV1) (toolchain : LeanToolchainIdentityV1) :
    ∀ lock ∈ (none : Option LeanBunLockV1), lock_matches_request lock root toolchain :=
  fun _ h => by cases h

def sample_request : LeanResolutionRequestV1 where
  root := sample_root
  active_lock := none
  mode := .Update [] no_keys_sorted (Nat.zero_le _)
  toolchain := sample_toolchain
  frozen_has_lock := empty_update_unfrozen
  lock_matches := no_lock_matches sample_root sample_toolchain

/-- The sample resolves; the edge from `a` to `b` is shadowed by the root. -/
theorem resolve_complete_sample : ∃ graph,
    resolve_lean_dependencies_v1 sample_request [sample_candidate_a, sample_candidate_b] =
      .ok graph ∧
    ∃ roots winner, root_requirements sample_request.root = .ok roots ∧
      CompleteGraph roots [sample_candidate_a, sample_candidate_b] graph winner := by
  have hok : (resolve_lean_dependencies_v1 sample_request
      [sample_candidate_a, sample_candidate_b]).isOk = true := by decide +kernel
  obtain ⟨graph, hgraph⟩ := exists_of_isOk hok
  exact ⟨graph, hgraph, resolve_complete hgraph⟩

end LeanBun.Resolver
