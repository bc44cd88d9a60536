/-
What a recovery leaves of an interrupted adoption or update.

When the recovery returns a status, or gives the adoption up and removes its record,
nothing should be pending any more and the project lock should be gone. A publication
takes the lock before it writes its transaction record. An adoption that is cut off
between the two is dropped by looking at the transaction record alone: the lock stays.
-/
import LeanBun.Managed.Sample

set_option autoImplicit false

namespace LeanBun.Managed

open LeanBun.Lib LeanBun.Core LeanBun.Generation

variable {controller : ManagedProjectControllerV1} {s s' : ManagedState} {inputs : ManagedInputs}
  {text : Option Str} {generations : ProjectState}

/-! ## The directory is consistent -/

theorem consistent_adopt (hs : Consistent controller.manager s.generations)
    (hphase : AdoptPhase controller inputs s text generations) :
    Consistent controller.manager generations := by
  cases hphase with
  | idle => exact hs
  | reserved => exact hs
  | publishing _ _ _ _ _ _ hphase => exact consistent_publish hs hphase
  | adopted _ _ _ _ _ _ hphase => exact consistent_publish hs hphase

theorem consistent_update (hs : Consistent controller.manager s.generations)
    (hphase : UpdatePhase controller inputs s text generations) :
    Consistent controller.manager generations := by
  cases hphase with
  | idle => exact hs
  | publishing _ _ _ _ _ hphase => exact consistent_publish hs hphase
  | updated _ _ _ _ _ hphase => exact consistent_publish hs hphase

theorem consistent_recovery (hs : Consistent controller.manager s.generations)
    (hphase : RecoveryPhase controller inputs s text generations) :
    Consistent controller.manager generations := by
  cases hphase with
  | idle => exact hs
  | dropped => exact hs
  | recovering _ _ _ _ _ hphase => exact consistent_recover hs hphase
  | removed _ _ _ _ _ hsettles => exact consistent_recover hs hsettles.phase
  | recovered _ _ _ _ _ _ hsettles => exact consistent_recover hs hsettles.phase

theorem consistent_return (hs : Consistent controller.manager s.generations)
    (hphase : ReturnPhase controller inputs s text generations) :
    Consistent controller.manager generations := by
  cases hphase with
  | ended hend =>
    cases hend with
    | idle => exact hs
    | returned _ _ _ _ _ _ _ hphase => exact consistent_rollback hs hphase
  | returning _ _ _ _ _ _ hphase => exact consistent_rollback hs hphase

/-- The directory of a run is consistent, wherever operations are cut off. -/
theorem Run.consistent {allowed : ManagedState → ManagedOperation → ℕ → Prop}
    (h : Run controller allowed s) : Consistent controller.manager s.generations := by
  induction h with
  | initial => exact Consistent.initial
  | step _ operation n _ ih =>
    cases operation with
    | adopt target expected_tree inputs fault =>
      exact consistent_adopt ih (cut_of (adopt_phases target expected_tree inputs fault) n)
    | update inputs fault => exact consistent_update ih (cut_of (update_phases inputs fault) n)
    | recover inputs => exact consistent_recovery ih (cut_of (recover_phases ih inputs) n)
    | rollback inputs => exact consistent_return ih (cut_of (rollback_phases ih inputs) n)

/-! ## The end of a recovery -/

/-- The recovery has run to its end: it returned a status, or it removed the record. -/
def Ended (result : ManagedResult ManagedProjectStatusV1) (s' : ManagedState) : Prop :=
  (∃ status, result = .ok status) ∨ (∃ e, result = .error e) ∧ s'.record = none

/-- The transaction is not pending any more, and the project lock is free. -/
def Released (s' : ManagedState) (transaction : ExecutionId) : Prop :=
  (∀ record, reads s' record → record.pending_transaction ≠ some transaction) ∧
    s'.generations.lock = none

/-- The pending transaction is an adoption that has the project lock, or has found it
taken, and no transaction record. -/
def Stranded (s : ManagedState) (record : ManagedRecordV1) (transaction : ExecutionId) : Prop :=
  is_initial record transaction = true ∧ s.generations.transactions transaction = none ∧
    s.generations.lock ≠ none

theorem settles_free {record : ManagedRecordV1} {transaction : ExecutionId}
    {g : LeanBunGenerationV1} {active : Option ActiveRecord}
    (h : Settles controller inputs s record transaction g active generations) :
    generations.lock = none := by
  obtain ⟨_, -, ⟨_, _, -, -, -, hafter, -⟩ | ⟨_, -, hafter, -⟩⟩ := h.recovered
  · rw [hafter]
  · rw [hafter]

/-- **Releasing.** Take any state that operations leave, each of them cut off anywhere: an
adoption or an update with a transaction that is still pending. A recovery that runs to its
end releases the transaction, exactly when the adoption is not stranded between the
project lock and its transaction record. -/
theorem recovery_releases_iff (h : Run controller (fun _ _ _ => True) s) {record : ManagedRecordV1}
    (hreads : reads s record) {transaction : ExecutionId}
    (hpending : record.pending_transaction = some transaction)
    {result : ManagedResult ManagedProjectStatusV1}
    (hrun : (Managed.recover controller inputs).run s = (result, s')) (hended : Ended result s') :
    Released s' transaction ↔ ¬Stranded s record transaction := by
  have hphases := recover_phases h.consistent inputs
  have hrecorded : ∀ {other : ManagedRecordV1} {t : ExecutionId} {g : LeanBunGenerationV1},
      Recovers controller inputs s other t g → ¬Stranded s record transaction := by
    rintro other t g hrecovers ⟨hinitial, hnone, -⟩
    cases hreads.unique hrecovers.reads.text
    have ht := hrecovers.pending
    rw [hpending] at ht
    cases ht
    exact hrecovers.begun hinitial hnone
  rcases hended with ⟨status, rfl⟩ | ⟨⟨e, rfl⟩, hremoved⟩
  · -- a status was returned: the manager has recovered the pending generation
    obtain ⟨other, t, g, active, hsettles, hafter⟩ := hphases.run_ok (congrArg Prod.fst hrun)
    rw [hrun] at hsettles hafter
    refine ⟨fun _ => hrecorded hsettles.recovers, fun _ => ⟨fun read hread => ?_, ?_⟩⟩
    · rw [hread.unique hafter]
      unfold recovered_record
      split <;> exact Option.some_ne_none _ ∘ Eq.symm
    · exact settles_free hsettles
  · -- the record was removed
    obtain ⟨n, hn⟩ := Prog.crash_run (Managed.recover controller inputs) s
    have hphase := hphases.crash n
    rw [hn, hrun] at hphase
    have hgone : ∀ read, reads s' read → read.pending_transaction ≠ some transaction := by
      intro read hread
      have htext := hread.text
      rw [hremoved] at htext
      cases htext
    unfold Stores.of at hphase
    dsimp only at hphase
    generalize htext : s'.record = text at hphase
    generalize hdirectory : s'.generations = generations at hphase
    have hnone : text = none := htext.symm.trans hremoved
    cases hphase with
    | idle =>
      rw [hreads.text] at hnone
      cases hnone
    | dropped other t hother ht hinitial hunrecorded =>
      cases hreads.unique hother.text
      rw [hpending] at ht
      cases ht
      have hfree : s'.generations.lock = none ↔ s.generations.lock = none := by rw [hdirectory]
      constructor
      · rintro ⟨-, hlock⟩ ⟨-, -, hstuck⟩
        exact hstuck (hfree.mp hlock)
      · intro hnot
        refine ⟨hgone, hfree.mpr ?_⟩
        by_contra hstuck
        exact hnot ⟨hinitial, hunrecorded, hstuck⟩
    | recovering other t g hrecovers =>
      rw [hreads.text] at hnone
      cases hnone
    | removed other t g hinitial _ hsettles =>
      refine ⟨fun _ => hrecorded hsettles.recovers, fun _ => ⟨hgone, ?_⟩⟩
      rw [hdirectory]
      exact settles_free hsettles
    | recovered => cases hnone

/-! ## The sample -/

/-- A publication can be cut off as it has taken the project lock. -/
theorem publish_locked {manager : LeanGenerationManagerV1} {objects : ObjectTrees}
    {g : LeanBunGenerationV1} (fault : LeanGenerationFaultV1)
    (hlocation : valid_location manager g = true) (hfree : generations.lock = none) :
    ∃ n, (publish manager objects g fault).crash n generations =
      { generations with lock := some (lock_bytes g) } := by
  unfold publish validate_generation_location check
  refine Prog.Reaches.crash_here ((Prog.reaches_lift (if_pos hlocation) _).trans
    (Prog.reaches_atomic (b := ()) ?_ _))
  rw [hfree]

/-- The adoption of the sample project is cut off there. -/
theorem sample_stranded : ∃ n, (ManagedOperation.adopt sample_target empty_tree
    (sample_inputs first_transaction) .AfterLock).cut sample_controller n ManagedState.initial =
      ⟨some (record_bytes first_record), false,
        { ProjectState.initial with lock := some (lock_bytes first_made) }⟩ := by
  have hlocation : valid_location sample_controller.manager first_made = true :=
    bare_made_location _ _ _ _
  obtain ⟨n, hn⟩ : ∃ n, (publish sample_controller.manager no_objects first_made .AfterLock).crash n
      ProjectState.initial = { ProjectState.initial with lock := some (lock_bytes first_made) } :=
    publish_locked .AfterLock hlocation rfl
  obtain ⟨k, hk⟩ := adopt_cut sample_adopts .AfterLock rfl n
  refine ⟨k, hk.trans ?_⟩
  exact congrArg (fun generations => (⟨some (record_bytes first_record), false, generations⟩ :
    ManagedState)) hn

/-- A recovery of it gives the adoption up, and leaves the lock. -/
theorem sample_stranded_recovery : ∃ s e s', Run sample_controller (fun _ _ _ => True) s ∧
    reads s first_record ∧ Stranded s first_record first_transaction ∧
    (Managed.recover sample_controller (sample_inputs first_transaction)).run s = (.error e, s') ∧
    s'.record = none ∧ s'.generations.lock ≠ none := by
  obtain ⟨n, hn⟩ := sample_stranded
  have hrun : Run sample_controller (fun _ _ _ => True) ⟨some (record_bytes first_record), false,
      { ProjectState.initial with lock := some (lock_bytes first_made) }⟩ := by
    rw [← hn]
    exact .step .initial _ n trivial
  have hreads : reads ⟨some (record_bytes first_record), false,
      { ProjectState.initial with lock := some (lock_bytes first_made) }⟩ first_record :=
    sample_reads rfl rfl rfl
  have hinitial : is_initial first_record first_transaction = true := by decide +kernel
  obtain ⟨e, he⟩ : ∃ e, (Managed.recover sample_controller (sample_inputs first_transaction)).run _ =
    (.error e, _) := recover_drops rfl hreads rfl hinitial rfl
  exact ⟨_, e, _, hrun, hreads, ⟨hinitial, rfl, Option.some_ne_none _⟩, he, rfl,
    Option.some_ne_none _⟩

/-- The theorem at the stranded adoption. -/
theorem recovery_releases_sample : ∃ s', ¬Released s' first_transaction := by
  obtain ⟨s, e, s', hrun, hreads, hstranded, hrecover, hremoved, -⟩ := sample_stranded_recovery
  have hiff := recovery_releases_iff hrun hreads (show first_record.pending_transaction = some
    first_transaction from rfl) hrecover
    (Or.inr ⟨⟨e, rfl⟩, hremoved⟩)
  exact ⟨s', fun hreleased => hiff.mp hreleased hstranded⟩

/-- **A stranded adoption.** The recovery runs to its end, it removes the reservation; the
project lock stays. -/
theorem lock_left_behind : ∃ s e s', Run sample_controller (fun _ _ _ => True) s ∧
    reads s first_record ∧ first_record.pending_transaction = some first_transaction ∧
    (Managed.recover sample_controller (sample_inputs first_transaction)).run s = (.error e, s') ∧
    s'.record = none ∧ s'.generations.lock ≠ none := by
  obtain ⟨s, e, s', hrun, hreads, -, hrecover, hremoved, hlock⟩ := sample_stranded_recovery
  exact ⟨s, e, s', hrun, hreads, rfl, hrecover, hremoved, hlock⟩

end LeanBun.Managed
