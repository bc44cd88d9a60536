/-
When the active record changes.

Every step of the manager leaves the active record as it is, except a rename,
which puts one generation's record in its place. So the labels of the steps that
a crash has let through decide what the active record is. The retained record is
left alone by all but one of the primitives.
-/
import LeanBun.Generation.Primitives

set_option autoImplicit false

namespace LeanBun.Generation

open LeanBun.Lib LeanBun.Core LeanBun.Store

/-- A step changes the active record only if it is a rename, and then to `text`. -/
def renames_to (text : Str) (step : ManagerStep) (s s' : ProjectState) : Prop :=
  s'.active = if step = .ActiveRename then some text else s.active

variable {manager : LeanGenerationManagerV1} {g : LeanBunGenerationV1} {text : Str} {α : Type}

/-- **The active record by the trace.** -/
theorem active_of_trace {p : ManagerProg α} (h : p.Steps (renames_to text)) (s : ProjectState) (n : ℕ) :
    (p.crash n s).active = if .ActiveRename ∈ p.trace n s then some text else s.active := by
  have hstart : s.active = if .ActiveRename ∈ ([] : List ManagerStep) then some text else s.active := by
    simp
  refine h.crash (M := fun labels s' =>
    s'.active = if .ActiveRename ∈ labels then some text else s.active) ?_ hstart n
  intro step labels before after hstep hbefore
  rw [hstep]
  by_cases hrename : step = .ActiveRename
  · rw [if_pos hrename, if_pos (by simp [hrename])]
  · rw [if_neg hrename, hbefore]
    have hmem : (.ActiveRename ∈ labels ++ [step]) ↔ .ActiveRename ∈ labels := by
      simp [Ne.symm hrename]
    simp only [hmem]

/-- A step that leaves the retained record as it is. -/
def unretained (text : Str) (step : ManagerStep) (s s' : ProjectState) : Prop :=
  renames_to text step s s' ∧ s'.retained = s.retained

theorem renames_of_unretained {p : ManagerProg α} (h : p.Steps (unretained text)) :
    p.Steps (renames_to text) := h.mono fun _ _ _ hstep => hstep.1

/-! ## The primitives -/

theorem read_unretained {f : ProjectState → GenerationResult α} :
    (Prog.read .Read f : ManagerProg α).Steps (unretained text) := Prog.steps_read fun _ => ⟨rfl, rfl⟩

theorem check_unretained {x : GenerationResult Unit} : (check x).Steps (unretained text) :=
  Prog.steps_lift

theorem inject_unretained {actual expected : LeanGenerationFaultV1} {stage : String} :
    (inject actual expected stage).Steps (unretained text) := check_unretained

theorem acquire_lock_unretained : (acquire_lock g).Steps (unretained text) := by
  apply Prog.steps_atomic
  intro s
  cases hlock : s.lock <;> exact ⟨rfl, rfl⟩

theorem release_lock_if_owned_unretained : (release_lock_if_owned g).Steps (unretained text) := by
  unfold release_lock_if_owned
  apply read_unretained.bind
  intro owned
  by_cases howned : owned = true
  · rw [if_pos howned]
    refine (Prog.steps_atomic fun s => ?_).bind fun _ => Prog.steps_pure
    cases hlock : s.lock <;> exact ⟨rfl, rfl⟩
  · rw [if_neg howned]
    exact Prog.steps_pure

theorem release_lock_unretained : (release_lock g).Steps (unretained text) :=
  release_lock_if_owned_unretained.bind fun _ => check_unretained

theorem create_transaction_record_unretained {state : LeanGenerationStateV1} :
    (create_transaction_record g state).Steps (unretained text) := by
  unfold create_transaction_record
  apply read_unretained.bind
  intro _
  apply Prog.steps_atomic
  intro s
  cases htransaction : s.transactions g.transaction_id <;> exact ⟨rfl, rfl⟩

theorem transition_unretained {next : LeanGenerationStateV1} :
    (transition g next).Steps (unretained text) := by
  unfold transition
  refine read_unretained.bind fun _ => Prog.steps_lift.bind fun _ => ?_
  exact (Prog.steps_write fun _ => ⟨rfl, rfl⟩).bind fun _ => read_unretained

theorem materialize_generation_unretained (objects : ObjectTrees) (fault : LeanGenerationFaultV1) :
    (materialize_generation objects g fault).Steps (unretained text) := by
  refine (materialize_generation_steps objects fault).mono ?_
  rintro step s s' ⟨rfl, hsame | ⟨directory, hset⟩⟩
  · rw [hsame]
    exact ⟨rfl, rfl⟩
  · rw [hset]
    exact ⟨rfl, rfl⟩

theorem publish_active_unretained {fault : LeanGenerationFaultV1} :
    (publish_active g fault).Steps (unretained (active_bytes (active_record g))) := by
  refine (Prog.steps_write fun _ => ⟨rfl, rfl⟩).bind fun _ => inject_unretained.bind fun _ => ?_
  exact (Prog.steps_write fun _ => ⟨rfl, rfl⟩).bind fun _ => read_unretained.bind fun _ =>
    check_unretained

theorem remove_abandoned_active_temp_unretained :
    (remove_abandoned_active_temp g).Steps (unretained text) := by
  refine read_unretained.bind fun candidates => Prog.Steps.for_each fun candidate _ => ?_
  apply Prog.steps_atomic
  intro s
  cases hread : stable_read candidate with
  | error e => exact ⟨rfl, rfl⟩
  | ok observed =>
    by_cases hsame : observed = active_bytes (active_record g)
    · simp only [hsame, if_true]
      exact ⟨rfl, rfl⟩
    · simp only [hsame, if_false]
      exact ⟨rfl, rfl⟩

theorem update_retained_renames : (update_retained g).Steps (renames_to text) :=
  (renames_of_unretained read_unretained).bind fun _ => (Prog.steps_write fun _ => rfl).bind fun _ =>
    renames_of_unretained read_unretained

theorem verify_published_generation_unretained :
    (verify_published_generation g).Steps (unretained text) :=
  read_unretained.bind fun _ => check_unretained.bind fun _ => read_unretained

theorem verify_active_generation_unretained :
    (verify_active_generation manager g).Steps (unretained text) :=
  check_unretained.bind fun _ => read_unretained.bind fun _ => check_unretained.bind fun _ =>
    read_unretained.bind fun _ => check_unretained.bind fun _ => read_unretained

/-! ## The operations

A property of programs that sequencing keeps holds of an operation when it holds
of the update of the retained record and of everything that leaves it alone. -/

section Operations

variable {C : ∀ β : Type, ManagerProg β → Prop}
  (hbind : ∀ (β γ : Type) (p : ManagerProg β) (f : β → ManagerProg γ),
    C β p → (∀ b, C γ (f b)) → C γ (p >>= f))
  (hkeep : ∀ (β : Type) (p : ManagerProg β), p.Steps (unretained text) → C β p)
  (hupdate : C Unit (update_retained g))

include hbind hkeep hupdate

theorem publish_composed (htext : text = active_bytes (active_record g)) (objects : ObjectTrees)
    (fault : LeanGenerationFaultV1) : C LeanGenerationOutcomeV1 (publish manager objects g fault) := by
  have hthen : ∀ {β γ : Type} {p : ManagerProg β} {f : β → ManagerProg γ},
      p.Steps (unretained text) → (∀ b, C γ (f b)) → C γ (p >>= f) :=
    fun hp hf => hbind _ _ _ _ (hkeep _ _ hp) hf
  subst htext
  exact hthen check_unretained fun _ => hthen acquire_lock_unretained fun _ =>
    hthen inject_unretained fun _ => hthen create_transaction_record_unretained fun _ =>
    hthen inject_unretained fun _ => hthen (materialize_generation_unretained objects fault) fun _ =>
    hthen transition_unretained fun _ => hthen inject_unretained fun _ =>
    hthen read_unretained fun _ => hthen transition_unretained fun _ =>
    hthen inject_unretained fun _ => hthen publish_active_unretained fun _ =>
    hthen inject_unretained fun _ => hthen transition_unretained fun _ =>
    hthen inject_unretained fun _ => hbind _ _ _ _ hupdate fun _ =>
    hthen inject_unretained fun _ => hthen inject_unretained fun _ =>
    hthen release_lock_unretained fun _ => hkeep _ _ Prog.steps_pure

theorem recover_composed : C LeanGenerationRecoveryV1 (recover manager g) := by
  have hthen : ∀ {β γ : Type} {p : ManagerProg β} {f : β → ManagerProg γ},
      p.Steps (unretained text) → (∀ b, C γ (f b)) → C γ (p >>= f) :=
    fun hp hf => hbind _ _ _ _ (hkeep _ _ hp) hf
  have hreleased : ∀ state active, C LeanGenerationRecoveryV1 (do
      let released ← release_lock_if_owned g
      return ⟨state, active, released⟩) := by
    intro state active
    refine hthen release_lock_if_owned_unretained fun released => ?_
    exact hkeep _ (pure (⟨state, active, released⟩ : LeanGenerationRecoveryV1)) Prog.steps_pure
  refine hthen check_unretained fun _ => hthen read_unretained fun transaction =>
    hthen read_unretained fun active => hthen check_unretained fun _ => ?_
  by_cases hactive : active.any (fun record => names_generation record g) = true
  · -- the publication is completed
    rw [if_pos hactive]
    have hrest : ∀ p : ManagerProg Unit, p.Steps (unretained text) → C LeanGenerationRecoveryV1 (do
        p
        update_retained g
        let released ← release_lock_if_owned g
        return ⟨.Published, true, released⟩) := fun p hp =>
      hthen hp fun _ => hbind _ _ _ _ hupdate fun _ => hreleased _ _
    unfold recover_active
    refine hthen read_unretained fun _ => ?_
    cases transaction with
    | none => exact hrest _ check_unretained
    | some record =>
      obtain ⟨_, _, _, state⟩ := record
      cases state with
      | Published => exact hrest (pure ()) Prog.steps_pure
      | Verified => exact hrest _ transition_unretained
      | _ => exact hrest _ check_unretained
  · -- it is given up
    rw [if_neg hactive]
    have hrest : ∀ p : ManagerProg Unit, p.Steps (unretained text) → C LeanGenerationRecoveryV1 (do
        p
        remove_abandoned_active_temp g
        let released ← release_lock_if_owned g
        return ⟨.Failed, false, released⟩) := fun p hp =>
      hthen hp fun _ => hthen remove_abandoned_active_temp_unretained fun _ => hreleased _ _
    unfold recover_inactive
    cases transaction with
    | none => exact hrest _ create_transaction_record_unretained
    | some record =>
      obtain ⟨_, _, _, state⟩ := record
      cases state with
      | Published => exact hrest _ check_unretained
      | Failed => exact hrest (pure ()) Prog.steps_pure
      | _ => exact hrest _ transition_unretained

end Operations

/-- A publication renames to the record of its own generation. -/
theorem publish_renames (objects : ObjectTrees) (fault : LeanGenerationFaultV1) :
    (publish manager objects g fault).Steps (renames_to (active_bytes (active_record g))) :=
  publish_composed (fun _ _ _ _ hp hf => hp.bind hf) (fun _ _ hp => renames_of_unretained hp)
    update_retained_renames rfl objects fault

/-- A rollback leaves the retained record alone, and renames to the record of the
generation that it returns to. -/
theorem rollback_unretained (current retained : LeanBunGenerationV1) :
    (rollback_active_generation manager current retained).Steps
      (unretained (active_bytes (active_record retained))) := by
  have hlocked : (rollback_locked manager current retained).Steps
      (unretained (active_bytes (active_record retained))) :=
    verify_active_generation_unretained.bind fun _ => verify_published_generation_unretained.bind
      fun _ => publish_active_unretained.bind fun _ => verify_active_generation_unretained
  refine check_unretained.bind fun _ => check_unretained.bind fun _ => check_unretained.bind fun _ =>
    verify_active_generation_unretained.bind fun _ => verify_published_generation_unretained.bind
    fun _ => acquire_lock_unretained.bind fun _ => hlocked.attempt.bind fun result => ?_
  cases result with
  | ok _ => exact release_lock_unretained
  | error error => exact release_lock_if_owned_unretained.attempt.bind fun _ => Prog.steps_lift

/-- The active record after a publication is cut off. -/
theorem publish_active_trace (manager : LeanGenerationManagerV1) (s : ProjectState)
    (objects : ObjectTrees) (g : LeanBunGenerationV1) (fault : LeanGenerationFaultV1) (n : ℕ) :
    ((publish manager objects g fault).crash n s).active =
      if .ActiveRename ∈ (publish manager objects g fault).trace n s then
        some (active_bytes (active_record g)) else s.active :=
  active_of_trace (publish_renames objects fault) s n

/-- The active record after a rollback is cut off. -/
theorem rollback_active_trace (manager : LeanGenerationManagerV1) (s : ProjectState)
    (current retained : LeanBunGenerationV1) (n : ℕ) :
    ((rollback_active_generation manager current retained).crash n s).active =
      if .ActiveRename ∈ (rollback_active_generation manager current retained).trace n s then
        some (active_bytes (active_record retained)) else s.active :=
  active_of_trace (renames_of_unretained (rollback_unretained current retained)) s n

end LeanBun.Generation
