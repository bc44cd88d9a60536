/-
Chains of reuses.

A reuse transaction that reports a reuse names the latest compatible build of the store. Its
own record is never completed, so no later transaction selects it. A history of a store is made
of builds, transactions and recoveries, one after the other and each of them stopped at any
point; in every store of a history, every reuse refers to the completed record of a build that
is there, and that record is no reuse.
-/
import LeanBun.Reuse.Undisturbed

set_option autoImplicit false

namespace LeanBun.Reuse

open LeanBun.Lib LeanBun.Core LeanBun.Execution

/-! ## A transaction -/

section Transactions

variable {env : ReuseEnvironment} {stateRoot : JsString} {r : ReuseReadings}
  {start : StateRoot}

/-- What the record of the transaction itself is, until it is terminal. -/
structure OwnRecord (r : ReuseReadings) (d : ControlledBuildExecutionRecordV1) : Prop where
  status : d.status ≠ .terminal .completed
  identity : ∃ binding attestation, r.initialBinding = some binding ∧
    r.initialAttestation = some attestation ∧ reuse_identity d = r.candidates binding attestation

/-- A document that is sourced at the start, and the one of the transaction is its own. -/
structure ReuseNames (r : ReuseReadings) (start : StateRoot) (id : JsString)
    (d : ControlledBuildExecutionRecordV1) : Prop where
  sourced : Sourced start id d
  own : id = r.executionId → OwnRecord r d

theorem reuse_names_start (hs : AllSourced start) (hfresh : Fresh start r.executionId) :
    WellNamed (ReuseNames r start) start := by
  refine ⟨fun id file hfile d hd => ⟨hs.records id file hfile d hd, ?_⟩,
    fun id j file hfile d hd => ⟨hs.temporaries id j file hfile d hd, ?_⟩⟩
  · rintro rfl
    rw [hfresh.record] at hfile
    cases hfile
  · rintro rfl
    rw [hfresh.temporaries] at hfile
    cases hfile

/-- A completed record that is valid has been written by no reuse. -/
theorem completed_is_original {date_parse : JsString → Option ℤ}
    {d : ControlledBuildExecutionRecordV1} (hvalid : valid_record date_parse d = true)
    (hstatus : d.status = .terminal .completed) {outcome : ControlledBuildExecutionOutcomeV1}
    (houtcome : d.outcome = some outcome) : outcome.reusedFromExecutionId = none := by
  unfold valid_record at hvalid
  rw [hstatus, houtcome] at hvalid
  simp only [Option.any_some, Bool.and_eq_true] at hvalid
  have hoff := hvalid.2.2
  unfold valid_outcome at hoff
  simp only [Bool.and_eq_true, Bool.not_eq_true', Bool.and_eq_false_iff] at hoff
  obtain ⟨⟨⟨⟨-, hsource⟩, -⟩, -⟩, -⟩ := hoff
  rcases hsource with hstatus | hnone
  · exact absurd hstatus (by decide)
  · exact Option.not_isSome_iff_eq_none.mp (Bool.eq_false_iff.mp hnone)

/-- The build that is reused is one that Lake ran. -/
theorem Reuses.actual {date_parse : JsString → Option ℤ} {source : ControlledBuildExecutionRecordV1}
    {evidence : ProjectBuildReuseEvidenceV1} (h : Reuses date_parse start r source evidence) :
    ActualRun source evidence := by
  obtain ⟨_, _, -, -, hchosen⟩ := h.chosen
  obtain ⟨-, recorded, hrun⟩ := successful_candidate_run hchosen.compatible
  obtain ⟨outcome, houtcome, -, -, -, hrecorded⟩ := hrun.lake
  have hevidence := h.evidence_eq
  unfold reuse_evidence at hevidence
  rw [houtcome, Option.bind_some, hrecorded, Option.some.injEq] at hevidence
  rw [← hevidence]
  exact hrun

/-- The record of a reuse has its source in the store. -/
theorem reused_record_source (hs : AllSourced start) {candidate : StoredExecutionRecord}
    {evidence : ProjectBuildReuseEvidenceV1} {tree : ArtifactTree}
    {d : ControlledBuildExecutionRecordV1} (hd : OwnRecord r d)
    (hreuses : Reuses env.date_parse start r candidate.document evidence) :
    StoredAt start candidate.document.executionId candidate.document ∧
      Source (d.finished .reused r.finishedAt (reused_outcome candidate evidence tree))
        candidate.document := by
  obtain ⟨binding, attestation, hbinding, hattestation, hidentity⟩ := hd.identity
  obtain ⟨binding', attestation', hbinding', hattestation', hchosen⟩ := hreuses.chosen
  rw [hbinding, Option.some.injEq] at hbinding'
  rw [hattestation, Option.some.injEq] at hattestation'
  subst hbinding' hattestation'
  obtain ⟨hsame, -⟩ := successful_candidate_run hchosen.compatible
  have hrun := hreuses.actual
  obtain ⟨id, hstored⟩ := hchosen.stored
  have hown : candidate.document.executionId = id := (hstored.named hs).own
  refine ⟨by rw [hown]; exact hstored, ?_, ⟨evidence, _, hrun, rfl, rfl, rfl⟩,
    fun found hfound => completed_is_original hchosen.valid hrun.status hfound⟩
  exact hidentity.trans hsame.symm

theorem admits_reuse (hs : AllSourced start) : Admits (ReuseNames r start) env.date_parse start r where
  started binding attestation key before hbinding hattestation :=
    ⟨⟨rfl, fun hreused => by cases hreused⟩, fun _ =>
      ⟨fun hcompleted => (by cases hcompleted), binding, attestation, hbinding, hattestation, rfl⟩⟩
  failed d outcome hd :=
    ⟨hd.sourced.finished (by decide), fun hid =>
      ⟨fun hcompleted => (by cases hcompleted), (hd.own hid).identity⟩⟩
  reused d candidate evidence tree hd hreuses := by
    have hsource := @reused_record_source _ _ _ hs _ _ tree _ (hd.own rfl) hreuses
    exact ⟨⟨hd.sourced.own, fun _ => ⟨candidate.document, hsource⟩⟩, fun _ =>
      ⟨fun hcompleted => (by cases hcompleted), (hd.own rfl).identity⟩⟩
  own d hd := (hd.own rfl).status

/-- A later store: what it has is sourced, and the completed records are still there. -/
structure Continues (start s : StateRoot) : Prop where
  sourced : AllSourced s
  completed : KeepsCompleted start s

theorem Continues.refl {s : StateRoot} (hs : AllSourced s) : Continues s s :=
  ⟨hs, fun _ _ hstored _ => hstored⟩

theorem Kept.mono {Names Names' : JsString → ControlledBuildExecutionRecordV1 → Prop}
    {id : JsString} {s : StateRoot} (h : Kept Names id start s)
    (hnames : ∀ other d, Names other d → Names' other d) : Kept Names' id start s where
  named := ⟨fun other file hfile d hd => hnames _ _ (h.named.records other file hfile d hd),
    fun other j file hfile d hd => hnames _ _ (h.named.temporaries other j file hfile d hd)⟩
  elsewhere := h.elsewhere

theorem Kept.continues {id : JsString} {s : StateRoot} (h : Kept (Sourced start) id start s)
    (hid : ∀ d, StoredAt start id d → d.status ≠ .terminal .completed) : Continues start s :=
  ⟨h.sourced hid, h.completed hid⟩

/-- **A reuse transaction**, stopped anywhere. -/
theorem transaction_continues (hs : AllSourced start) (hfresh : Fresh start r.executionId)
    (hlisted : Listed env.readdir r.executionId start) (hundisturbed : r.Undisturbed) (n : ℕ) :
    Continues start ((Reuse.runReuseTransaction env stateRoot r).crash n start) := by
  have hkeeps : Keeps (ReuseNames r start) r.executionId start (Reported env.date_parse start r)
      (Reuse.runReuseTransaction env stateRoot r) start :=
    keeps_transaction (reuse_names_start hs hfresh) (admits_reuse hs) hlisted hundisturbed
  have hkept := hkeeps.holds.crash n
  exact (hkept.mono fun _ _ h => h.sourced).continues fun d hd => absurd hd (hfresh.stored d)

end Transactions

/-! ## The other steps -/

section Steps

variable {env : Environment} {stateRoot : JsString} {start : StateRoot}

/-- **A build**, stopped anywhere. -/
theorem build_continues {input : CoordinatorInput} {profileSha256 : JsString} {work : Work}
    (hs : AllSourced start) (hfresh : Fresh start input.lock.executionId)
    (hwork : ∀ status finishedAt outcome, work = .finished status finishedAt outcome →
      status ≠ .reused) (n : ℕ) :
    Continues start ((runControlledBuildProbe env stateRoot input profileSha256 work).crash n
      start) :=
  ((keeps_build hs hwork).holds.crash n).continues fun d hd => absurd hd (hfresh.stored d)

theorem continues_of_executions {s : StateRoot} (hs : AllSourced start)
    (hsame : s.executions = start.executions) : Continues start s := by
  have hkeeps : KeepsCompleted start s := by
    intro id d hstored _
    unfold StoredAt
    rw [hsame]
    exact hstored
  exact ⟨AllSourced.later hkeeps (WellNamed.of_executions hs hsame), hkeeps⟩

/-- A program that leaves the records alone. -/
theorem continues_others {α : Type} {p : StoreProg α} (hs : AllSourced start)
    (h : p.Steps KeepsExecutions) :
    Prog.Holds (Continues start) (fun _ _ => True) (fun _ _ => True) p start :=
  (h.holds (J := fun t => t.executions = start.executions)
    (fun _ _ _ hsame hbefore => Eq.trans hsame hbefore) rfl).mono
      (fun _ ht => continues_of_executions hs ht) (fun _ _ _ _ => trivial) fun _ _ _ _ => trivial

section Recovery

variable {executionId : JsString} {audit : RecoveryAudit}
  {record : ControlledBuildExecutionRecordV1} {key : JsString} {pid : ℤ}

theorem keeps_process_state : (coordinatorProcessState audit pid).Steps KeepsExecutions :=
  Prog.steps_read fun _ => rfl

/-- A recovery of a terminal record only releases its lock. -/
theorem recover_terminal_keeps (hstatus : record.status ≠ .running) :
    (recover_record env stateRoot executionId audit record key pid).Steps KeepsExecutions := by
  unfold recover_record
  refine (keeps_load_lock fun _ _ => rfl).bind fun lock => ?_
  split
  · exact trivial
  split
  · exact trivial
  refine keeps_process_state.bind fun state => ?_
  split
  · exact trivial
  split
  · exact trivial
  split
  · exact trivial
  split
  · exact trivial
  unfold recover_idle
  rw [if_pos hstatus]
  exact keeps_release.bind fun _ => trivial

/-- A recovery of a running record finishes it as failed. -/
theorem recover_running_keeps (hs : Kept (Sourced start) executionId start start) :
    Keeps (Sourced start) executionId start (fun _ => True)
      (recover_record env stateRoot executionId audit record key pid) start := by
  unfold recover_record
  have hload : (loadBuildLock (env.part 0) stateRoot key no_note).Steps KeepsExecutions :=
    keeps_load_lock fun _ _ => rfl
  refine (keeps_others hs hload).bind fun lock t ht _ => ?_
  split
  · exact keeps_pure ht trivial
  split
  · exact keeps_pure ht trivial
  refine (keeps_others ht keeps_process_state).bind fun state u hu _ => ?_
  split
  · exact keeps_pure hu trivial
  split
  · exact keeps_pure hu trivial
  split
  · exact keeps_pure hu trivial
  split
  · exact keeps_pure hu trivial
  unfold recover_idle
  split
  · exact (keeps_others hu keeps_release).bind fun _ v hv _ => keeps_pure hv trivial
  cases lock with
  | none => exact keeps_pure hu trivial
  | some lock =>
    unfold recover_running
    dsimp only
    split
    · exact keeps_pure hu trivial
    cases audit.evidence with
    | none => exact ⟨hu, trivial⟩
    | some facts =>
      refine (keeps_finalize hu fun d hd _ _ => hd.finished (by decide)).bind fun _ v hv _ => ?_
      exact (keeps_others hv keeps_release).bind fun _ w hw _ => keeps_pure hw trivial

/-- **A recovery**, stopped anywhere. -/
theorem recovery_continues (hs : AllSourced start) (n : ℕ) :
    Continues start ((recoverStaleExecution env stateRoot executionId audit).crash n start) := by
  have hkept : Kept (Sourced start) executionId start start := ⟨hs, fun _ _ => rfl⟩
  have hnothing : ∀ report : ExecutionRecoveryReport, Prog.Holds (Continues start)
      (fun _ _ => True) (fun _ _ => True) (pure report : StoreProg ExecutionRecoveryReport) start :=
    fun _ => ⟨Continues.refl hs, trivial⟩
  suffices hholds : Prog.Holds (Continues start) (fun _ _ => True) (fun _ _ => True)
      (recoverStaleExecution env stateRoot executionId audit) start from hholds.crash n
  unfold recoverStaleExecution
  have hload := @looks_load_record start (env.part 0) stateRoot executionId
  refine Prog.Holds.bind (J := fun stored t => t = start ∧
    RecordReads (env.part 0).date_parse start executionId stored.document)
    (hload.mono (fun t ht => ?_) (fun _ _ _ h => h) fun _ _ _ _ => trivial)
    fun stored t _ hstored => ?_
  · rw [ht]
    exact Continues.refl hs
  obtain ⟨ht, file, hfile, hreadable⟩ := hstored
  rw [ht]
  split
  · rename_i key pid _ _
    by_cases hstatus : stored.document.status = .running
    · refine (recover_running_keeps hkept).holds.mono (fun s hs => hs.continues fun d hd => ?_)
        (fun _ _ _ _ => trivial) fun _ _ _ _ => trivial
      obtain ⟨other, hother, hdocument⟩ := hd
      rw [hfile, Option.some.injEq] at hother
      rw [← hother, hreadable.document, Option.some.injEq] at hdocument
      rw [← hdocument, hstatus]
      exact fun h => by cases h
    · exact continues_others hs (recover_terminal_keeps hstatus)
  · exact hnothing _

end Recovery

end Steps

/-! ## Histories -/

/-- The stores that builds, reuse transactions and recoveries make of an empty one. A call that
gets to its end is one that is stopped late enough. The ids of builds and transactions are drawn
at random, so there is nothing at them before. -/
inductive History : StateRoot → Prop where
  | start {s : StateRoot} (hfresh : ∀ id, Fresh s id) : History s
  | build {s : StateRoot} (env : Environment) (stateRoot : JsString) (input : CoordinatorInput)
      (profileSha256 : JsString) (work : Work) (n : ℕ) (h : History s)
      (hfresh : Fresh s input.lock.executionId)
      (hwork : ∀ status finishedAt outcome, work = .finished status finishedAt outcome →
        status ≠ .reused) :
      History ((runControlledBuildProbe env stateRoot input profileSha256 work).crash n s)
  | reuse {s : StateRoot} (env : ReuseEnvironment) (stateRoot : JsString) (r : ReuseReadings) (n : ℕ)
      (h : History s) (hfresh : Fresh s r.executionId)
      (hlisted : Listed env.readdir r.executionId s) (hundisturbed : r.Undisturbed) :
      History ((Reuse.runReuseTransaction env stateRoot r).crash n s)
  | recovery {s : StateRoot} (env : Environment) (stateRoot executionId : JsString)
      (audit : RecoveryAudit) (n : ℕ) (h : History s) :
      History ((recoverStaleExecution env stateRoot executionId audit).crash n s)
  /-- Processes end, and directories and build locks change otherwise. -/
  | elsewhere {s s' : StateRoot} (h : History s) (hsame : s'.executions = s.executions) : History s'

/-- **One step** of a history, and with it every store of one. -/
theorem history_sourced {s : StateRoot} (h : History s) : AllSourced s := by
  induction h with
  | start hfresh =>
    refine ⟨fun id file hfile => ?_, fun id j file hfile => ?_⟩
    · rw [(hfresh id).record] at hfile
      cases hfile
    · rw [(hfresh id).temporaries] at hfile
      cases hfile
  | build env stateRoot input profileSha256 work n _ hfresh hwork ih =>
    exact (build_continues ih hfresh hwork n).sourced
  | reuse env stateRoot r n _ hfresh hlisted hundisturbed ih =>
    exact (transaction_continues ih hfresh hlisted hundisturbed n).sourced
  | recovery env stateRoot executionId audit n _ ih => exact (recovery_continues ih n).sourced
  | elsewhere _ hsame ih => exact (continues_of_executions ih hsame).sourced

theorem sample_build_completes (status : TerminalStatus) (finishedAt : JsString)
    (outcome : ControlledBuildExecutionOutcomeV1)
    (h : sample_build = .finished status finishedAt outcome) : status ≠ .reused := by
  cases h
  decide

/-- The build is over after some number of steps. -/
theorem sample_built_crash : ∃ n, (runControlledBuildProbe quiet_environment [] sample_input
    sample_sha sample_build).crash n fresh_root = sample_built := by
  rw [sample_built]
  exact Prog.crash_run _ _

theorem sample_built_history : History sample_built := by
  obtain ⟨n, hn⟩ := sample_built_crash
  rw [← hn]
  exact .build _ _ _ _ _ n (.start fresh_root_fresh) (fresh_root_fresh _) sample_build_completes

theorem sample_undisturbed : sample_readings.Undisturbed := ⟨rfl, rfl⟩

theorem sample_reuse_history : History sample_reuse.2 := by
  obtain ⟨n, hn⟩ :=
    Prog.crash_run (Reuse.runReuseTransaction sample_environment [] sample_readings) sample_built
  have h := History.reuse sample_environment [] sample_readings n sample_built_history
    sample_reuse_fresh sample_listed sample_undisturbed
  rw [hn] at h
  exact h

end LeanBun.Reuse
