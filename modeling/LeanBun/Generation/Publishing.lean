/-
What a publication does, and where it can be cut off.

An inductive type lists the phases: a constructor says the state in full as a
change of the state in which the publication began. The main result is that a
publication is in one of its phases wherever it is cut off, whatever state it
began in.
-/
import LeanBun.Generation.Primitives

set_option autoImplicit false

namespace LeanBun.Generation

open LeanBun.Lib LeanBun.Core LeanBun.Store

section Publish

variable (manager : LeanGenerationManagerV1) (s : ProjectState) (g : LeanBunGenerationV1)

/-- A publication before the rename of the active record. -/
def staged (state : LeanGenerationStateV1) (directory : Option GenerationDirectory)
    (temps : List Str) : ProjectState :=
  { s with
    lock := some (lock_bytes g)
    transactions := Function.update s.transactions g.transaction_id
      (some (transaction_bytes (transaction_record g state)))
    active_temps := temps
    generations := Function.update s.generations g.transaction_id directory }

/-- A publication after the rename of the active record. -/
def renamed (state : LeanGenerationStateV1) (directory : Option GenerationDirectory)
    (retained lock : Option Str) : ProjectState :=
  { activate (staged s g state directory s.active_temps) g with
    retained := retained
    lock := lock }

/-- The states that a record goes through before the rename. -/
def unpublished (state : LeanGenerationStateV1) : Prop :=
  state = .Preparing ∨ state = .Materialized ∨ state = .Verified

/-- Where a publication of `g` from `s` can be cut off. -/
inductive PublishPhase : ProjectState → Prop
  | idle : PublishPhase s
  | locked (hlocation : valid_location manager g = true) (hfree : s.lock = none) :
      PublishPhase { s with lock := some (lock_bytes g) }
  | staged (hlocation : valid_location manager g = true) (hfree : s.lock = none)
      (hfresh : s.transactions g.transaction_id = none) (state : LeanGenerationStateV1)
      (directory : Option GenerationDirectory) (temps : List Str) (hstate : unpublished state)
      (htemps : ∀ text ∈ temps, text ∈ s.active_temps ∨ text = active_text g) :
      PublishPhase (staged s g state directory temps)
  | activated (hlocation : valid_location manager g = true) (hfree : s.lock = none)
      (hfresh : s.transactions g.transaction_id = none) (state : LeanGenerationStateV1)
      (directory : Option GenerationDirectory)
      (hstate : state = .Verified ∨ state = .Published ∧ clean_value g.generation_root = true)
      (hverified : verify_directory g directory = .ok ()) :
      PublishPhase (renamed s g state directory s.retained (some (lock_bytes g)))
  | retained (hlocation : valid_location manager g = true) (hfree : s.lock = none)
      (hfresh : s.transactions g.transaction_id = none) (directory : Option GenerationDirectory)
      (text : Str) (hclean : clean_value g.generation_root = true)
      (hverified : verify_directory g directory = .ok ()) (hretains : Retains s g text) :
      PublishPhase (renamed s g .Published directory (some text) (some (lock_bytes g)))
  | released (hlocation : valid_location manager g = true) (hfree : s.lock = none)
      (hfresh : s.transactions g.transaction_id = none) (directory : Option GenerationDirectory)
      (text : Str) (hclean : clean_value g.generation_root = true)
      (hverified : verify_directory g directory = .ok ()) (hretains : Retains s g text)
      (hsmall : byte_len text ≤ MAX_RECORD_BYTES) :
      PublishPhase (renamed s g .Published directory (some text) none)

end Publish

variable {manager : LeanGenerationManagerV1} {s : ProjectState} {g : LeanBunGenerationV1}

/-- A transition before the rename. -/
theorem staged_transition {I : ProjectState → Prop} {Q : Unit → ProjectState → Prop}
    {E : LeanGenerationError → ProjectState → Prop} {state next : LeanGenerationStateV1}
    {directory : Option GenerationDirectory} {temps : List Str}
    (hvalid : valid_transition state next = true) (hs : I (staged s g state directory temps))
    (hdone : I (staged s g next directory temps)) (hQ : Q () (staged s g next directory temps)) :
    Prog.Holds I Q E (transition g next) (staged s g state directory temps) := by
  have hrecord : (staged s g state directory temps).transactions g.transaction_id =
      some (transaction_bytes (transaction_record g state)) := Function.update_self ..
  have hafter : (staged s g state directory temps).set_transaction g.transaction_id
      (transaction_bytes { transaction_record g state with state := next }) =
      staged s g next directory temps := by
    unfold ProjectState.set_transaction staged
    dsimp only
    rw [Function.update_idem]
    rfl
  apply Holds.transition hrecord hs
  · intro hrefused
    refine absurd ?_ hrefused
    show (if _ then _ else if _ then _ else _) = _
    rw [if_neg (by rintro (h | h) <;> exact h rfl), if_neg (by
      rw [show (transaction_record g state).state = state from rfl, hvalid]
      simp)]
  · intro _ _ _
    rw [hafter]
    exact ⟨hdone, hQ⟩

/-- A transition after the rename. -/
theorem renamed_transition {I : ProjectState → Prop} {Q : Unit → ProjectState → Prop}
    {E : LeanGenerationError → ProjectState → Prop} {state next : LeanGenerationStateV1}
    {directory : Option GenerationDirectory} {retained lock : Option Str}
    (hvalid : valid_transition state next = true) (hs : I (renamed s g state directory retained lock))
    (hdone : I (renamed s g next directory retained lock))
    (hQ : Q () (renamed s g next directory retained lock)) :
    Prog.Holds I Q E (transition g next) (renamed s g state directory retained lock) := by
  have hrecord : (renamed s g state directory retained lock).transactions g.transaction_id =
      some (transaction_bytes (transaction_record g state)) := Function.update_self ..
  have hafter : (renamed s g state directory retained lock).set_transaction g.transaction_id
      (transaction_bytes { transaction_record g state with state := next }) =
      renamed s g next directory retained lock := by
    unfold ProjectState.set_transaction renamed activate staged
    dsimp only
    rw [Function.update_idem]
    rfl
  apply Holds.transition hrecord hs
  · intro hrefused
    refine absurd ?_ hrefused
    show (if _ then _ else if _ then _ else _) = _
    rw [if_neg (by rintro (h | h) <;> exact h rfl), if_neg (by
      rw [show (transaction_record g state).state = state from rfl, hvalid]
      simp)]
  · intro _ _ _
    rw [hafter]
    exact ⟨hdone, hQ⟩

/-- **Publishing.** Wherever a publication is cut off, it is in one of its phases,
and when it returns it has released the lock. -/
theorem publish_phases (objects : ObjectTrees) (fault : LeanGenerationFaultV1) :
    Prog.Holds (PublishPhase manager s g) (fun _ s' => s'.lock = none ∧ s'.active = some (active_text g))
      (fun _ _ => True) (publish manager objects g fault) s := by
  have hidle : PublishPhase manager s g s := .idle
  unfold publish
  apply Holds.check_bind hidle fun _ _ => trivial
  intro hlocation
  have hlocation : valid_location manager g = true := by
    by_contra hnot
    rw [if_neg hnot] at hlocation
    cases hlocation
  apply Holds.acquire_lock_bind hidle fun _ _ => trivial
  intro hfree
  have hlocked : PublishPhase manager s g { s with lock := some (lock_bytes g) } :=
    .locked hlocation hfree
  apply Holds.inject_bind hlocked fun _ _ => trivial
  apply Prog.Holds.bind (J := fun _ s' => s.transactions g.transaction_id = none ∧
    s' = staged s g .Preparing (s.generations g.transaction_id) s.active_temps)
  · apply Holds.create_transaction_record hlocked fun _ _ => trivial
    intro hfresh
    have hafter : ({ s with lock := some (lock_bytes g) } : ProjectState).set_transaction
        g.transaction_id (transaction_bytes (transaction_record g .Preparing)) =
        staged s g .Preparing (s.generations g.transaction_id) s.active_temps := by
      unfold ProjectState.set_transaction staged
      rw [Function.update_eq_self]
    rw [hafter]
    refine ⟨?_, hfresh, rfl⟩
    exact .staged hlocation hfree hfresh _ _ _ (Or.inl rfl) fun _ h => Or.inl h
  rintro _ _ - ⟨hfresh, rfl⟩
  -- every state up to the rename is one of these
  have hstaged : ∀ state directory, unpublished state →
      PublishPhase manager s g (staged s g state directory s.active_temps) :=
    fun state directory hstate => .staged hlocation hfree hfresh state directory _ hstate
      fun _ h => Or.inl h
  apply Holds.inject_bind (hstaged _ _ (Or.inl rfl)) fun _ _ => trivial
  apply Prog.Holds.bind (J := fun _ s' => ∃ directory,
    s' = staged s g .Preparing directory s.active_temps)
  · refine ((materialize_generation_steps objects fault).holds
      (J := fun s' => ∃ directory, s' = staged s g .Preparing directory s.active_temps) ?_
      ⟨_, rfl⟩).mono ?_ (fun _ _ _ h => h) fun _ _ _ _ => trivial
    · rintro _ before _ ⟨-, rfl | ⟨directory, rfl⟩⟩ ⟨old, rfl⟩
      · exact ⟨old, rfl⟩
      · refine ⟨some directory, ?_⟩
        unfold ProjectState.set_generation staged
        dsimp only
        rw [Function.update_idem]
    · rintro _ ⟨directory, rfl⟩
      exact hstaged _ _ (Or.inl rfl)
  rintro _ _ - ⟨directory, rfl⟩
  apply Prog.Holds.bind (J := fun _ s' => s' = staged s g .Materialized directory s.active_temps)
  · exact staged_transition rfl (hstaged _ _ (Or.inl rfl)) (hstaged _ _ (Or.inr (Or.inl rfl))) rfl
  rintro _ _ - rfl
  apply Holds.inject_bind (hstaged _ _ (Or.inr (Or.inl rfl))) fun _ _ => trivial
  apply Holds.verify_generation_bind (hstaged _ _ (Or.inr (Or.inl rfl))) fun _ _ => trivial
  intro hverified
  have hverified : verify_directory g directory = .ok () := by
    have hsame : (staged s g .Materialized directory s.active_temps).generations g.transaction_id =
        directory := Function.update_self ..
    rw [hsame] at hverified
    exact hverified
  apply Prog.Holds.bind (J := fun _ s' => s' = staged s g .Verified directory s.active_temps)
  · exact staged_transition rfl (hstaged _ _ (Or.inr (Or.inl rfl)))
      (hstaged _ _ (Or.inr (Or.inr rfl))) rfl
  rintro _ _ - rfl
  apply Holds.inject_bind (hstaged _ _ (Or.inr (Or.inr rfl))) fun _ _ => trivial
  apply Prog.Holds.bind (J := fun _ s' => clean_value g.generation_root = true ∧
    s' = renamed s g .Verified directory s.retained (some (lock_bytes g)))
  · apply Holds.publish_active (hstaged _ _ (Or.inr (Or.inr rfl)))
    · refine .staged hlocation hfree hfresh .Verified directory (s.active_temps ++ [active_text g])
        (Or.inr (Or.inr rfl)) fun text htext => ?_
      rcases List.mem_append.mp htext with h | h
      · exact Or.inl h
      · exact Or.inr (List.mem_singleton.mp h)
    · exact fun _ _ => trivial
    · exact .activated hlocation hfree hfresh .Verified directory (Or.inl rfl) hverified
    · exact fun _ _ => trivial
    · exact fun hclean => ⟨hclean, rfl⟩
  rintro _ _ hactivated ⟨hclean, rfl⟩
  apply Holds.inject_bind hactivated fun _ _ => trivial
  have hpublished : PublishPhase manager s g
      (renamed s g .Published directory s.retained (some (lock_bytes g))) :=
    .activated hlocation hfree hfresh .Published directory (Or.inr ⟨rfl, hclean⟩) hverified
  apply Prog.Holds.bind (J := fun _ s' =>
    s' = renamed s g .Published directory s.retained (some (lock_bytes g)))
  · exact renamed_transition rfl hactivated hpublished rfl
  rintro _ _ - rfl
  apply Holds.inject_bind hpublished fun _ _ => trivial
  apply Prog.Holds.bind (J := fun _ s' => ∃ text, Retains s g text ∧
    byte_len text ≤ MAX_RECORD_BYTES ∧
    s' = renamed s g .Published directory (some text) (some (lock_bytes g)))
  · apply Holds.update_retained hpublished fun _ _ => trivial
    intro text htext
    have hretained : PublishPhase manager s g
        (renamed s g .Published directory (some text) (some (lock_bytes g))) :=
      .retained hlocation hfree hfresh directory text hclean hverified htext
    exact ⟨hretained, fun _ _ => trivial, fun hsmall => ⟨text, htext, hsmall, rfl⟩⟩
  rintro _ _ hretained ⟨text, htext, hsmall, rfl⟩
  apply Holds.inject_bind hretained fun _ _ => trivial
  apply Holds.inject_bind hretained fun _ _ => trivial
  have hreleased : PublishPhase manager s g (renamed s g .Published directory (some text) none) :=
    .released hlocation hfree hfresh directory text hclean hverified htext hsmall
  apply Prog.Holds.bind (J := fun _ s' => s' = renamed s g .Published directory (some text) none)
  · exact Holds.release_lock hretained rfl hreleased rfl
  rintro _ _ - rfl
  exact Prog.holds_pure.mpr ⟨hreleased, rfl, rfl⟩

end LeanBun.Generation
