/-
Histories of reuses.

A history of a store is made of builds, reuse transactions and recoveries, each of them
stopped at any point. A terminal record is never changed, and every reuse refers to the
completed record of a build for the same evidence. So what a reuse refers to is there in
every later store, and it refers to nothing itself.
-/
import LeanBun.Reuse.Sources

set_option autoImplicit false

namespace LeanBun.Reuse

open LeanBun.Lib LeanBun.Core LeanBun.Execution

/-! ## The source of a reuse -/

/-- The record reuses the build of another one. -/
structure Source (d source : ControlledBuildExecutionRecordV1) : Prop where
  same : reuse_identity d = reuse_identity source
  actual : ∃ evidence outcome, ActualRun source evidence ∧ d.outcome = some outcome ∧
    outcome.reuseEvidence = some evidence ∧
    outcome.reusedFromExecutionId = some source.executionId
  original : ∀ outcome, source.outcome = some outcome → outcome.reusedFromExecutionId = none

/-- The document is that of its execution, and if it is a reuse its source is in the store. -/
structure Sourced (store : StateRoot) (id : JsString) (d : ControlledBuildExecutionRecordV1) :
    Prop where
  own : d.executionId = id
  source : d.status = .terminal .reused →
    ∃ source, StoredAt store source.executionId source ∧ Source d source

/-- Every document in the store is sourced there. -/
def AllSourced (store : StateRoot) : Prop := WellNamed (Sourced store) store

/-- Completed records stay. -/
def KeepsCompleted (s s' : StateRoot) : Prop :=
  ∀ id d, StoredAt s id d → d.status = .terminal .completed → StoredAt s' id d

theorem Sourced.later {s s' : StateRoot} {id : JsString} {d : ControlledBuildExecutionRecordV1}
    (h : Sourced s id d) (hkeeps : KeepsCompleted s s') : Sourced s' id d := by
  refine ⟨h.own, fun hreused => ?_⟩
  obtain ⟨source, hstored, hsource⟩ := h.source hreused
  obtain ⟨_, _, hrun, -⟩ := hsource.actual
  exact ⟨source, hkeeps _ _ hstored hrun.status, hsource⟩

theorem AllSourced.later {s s' : StateRoot} (hkeeps : KeepsCompleted s s')
    (hnamed : WellNamed (Sourced s) s') : AllSourced s' where
  records := fun id file hfile d hd => (hnamed.records id file hfile d hd).later hkeeps
  temporaries := fun id j file hfile d hd => (hnamed.temporaries id j file hfile d hd).later hkeeps

/-- No file of the execution is there. -/
structure Fresh (s : StateRoot) (id : JsString) : Prop where
  record : (s.executions id).record = none
  temporaries : ∀ call, (s.executions id).temporaries call = none

theorem Kept.completed {Names : JsString → ControlledBuildExecutionRecordV1 → Prop} {id : JsString}
    {start s : StateRoot} (h : Kept Names id start s)
    (hid : ∀ d, StoredAt start id d → d.status ≠ .terminal .completed) :
    KeepsCompleted start s := by
  intro other d hstored hcompleted
  by_cases hother : other = id
  · rw [hother] at hstored
    exact absurd hcompleted (hid d hstored)
  · unfold StoredAt
    rw [h.elsewhere other hother]
    exact hstored

theorem Fresh.stored {s : StateRoot} {id : JsString} (h : Fresh s id)
    (d : ControlledBuildExecutionRecordV1) : ¬StoredAt s id d := by
  rintro ⟨file, hfile, -⟩
  rw [h.record] at hfile
  cases hfile

/-! ## The steps of a history -/

section Steps

variable {env : Environment} {stateRoot : JsString} {s : StateRoot}

theorem Kept.sourced {id : JsString} {start s : StateRoot} (h : Kept (Sourced start) id start s)
    (hid : ∀ d, StoredAt start id d → d.status ≠ .terminal .completed) : AllSourced s :=
  AllSourced.later (h.completed hid) h.named

/-- A record that ends otherwise than as a reuse. -/
theorem Sourced.finished {id finishedAt : JsString} {d : ControlledBuildExecutionRecordV1}
    {status : TerminalStatus} {outcome : ControlledBuildExecutionOutcomeV1} (h : Sourced s id d)
    (hstatus : status ≠ .reused) : Sourced s id (d.finished status finishedAt outcome) :=
  ⟨h.own, fun hreused => absurd (ExecutionStatus.terminal.inj hreused) hstatus⟩

/-- **A build.** -/
theorem keeps_build {start : StateRoot} {input : CoordinatorInput} {profileSha256 : JsString}
    {work : Work} (hs : AllSourced start)
    (hwork : ∀ status finishedAt outcome, work = .finished status finishedAt outcome →
      status ≠ .reused) :
    Keeps (Sourced start) input.lock.executionId start (fun _ => True)
      (runControlledBuildProbe env stateRoot input profileSha256 work) start := by
  have hkept : Kept (Sourced start) input.lock.executionId start start := ⟨hs, fun _ _ => rfl⟩
  have hhold : ∀ key t, Kept (Sourced start) input.lock.executionId start t →
      Keeps (Sourced start) input.lock.executionId start (fun _ => True) (hold env key) t :=
    fun key t ht => keeps_others ht (Prog.steps_write fun _ => rfl)
  unfold runControlledBuildProbe run_execution
  apply Keeps.bind (M := fun _ => True)
  · have hacquire : (acquireBuildLock (env.part 0) stateRoot input.lock).Steps KeepsExecutions :=
      keeps_acquire
    exact keeps_attempt (keeps_others hkept hacquire) fun _ => trivial
  intro acquired t ht _
  cases acquired with
  | error e => exact keeps_pure ht trivial
  | ok lock =>
    refine (hhold _ t ht).bind fun _ u hu _ => ?_
    rw [if_pos rfl]
    apply Keeps.bind (M := fun _ => True)
    · refine keeps_attempt (keeps_begin hu rfl ⟨rfl, fun hreused => ?_⟩) fun _ => trivial
      cases hreused
    intro begun v hv _
    cases begun with
    | error e =>
      refine (hhold _ v hv).bind fun _ w hw _ => ?_
      have hrelease : (releaseBuildLock (env.part 2) stateRoot lock.document.expected).Steps
          KeepsExecutions := keeps_release
      exact (keeps_others hw hrelease).bind fun _ x hx _ => keeps_pure hx trivial
    | ok stored =>
      cases work with
      | unreaped =>
        exact (keeps_look hv (looks_load_record (env.part 3))).bind fun _ w hw _ =>
          keeps_pure hw trivial
      | finished status finishedAt outcome =>
        refine (keeps_finalize hv fun d hd _ _ => hd.finished (hwork _ _ _ rfl)).bind
          fun _ w hw _ => ?_
        refine (hhold _ w hw).bind fun _ x hx _ => ?_
        have hrelease : (releaseBuildLock (env.part 5) stateRoot lock.document.expected).Steps
            KeepsExecutions := keeps_release
        exact (keeps_others hx hrelease).bind fun _ y hy _ => keeps_pure hy trivial

end Steps

end LeanBun.Reuse
