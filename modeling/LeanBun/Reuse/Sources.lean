/-
Where reuses come from.

A transaction writes no completed record and leaves the records of the other executions
alone, wherever it is stopped. So no later transaction selects its record, and the source of
a reuse is the completed record of a build. Terminal records stay as they are, so in every
history of builds, transactions and recoveries the source of a reuse is still there, and it
is not itself a reuse.
-/
import LeanBun.Execution.Crash
import LeanBun.Reuse.Selection

set_option autoImplicit false

namespace LeanBun.Reuse

open LeanBun.Lib LeanBun.Core LeanBun.Execution

/-! ## One execution -/

/-- A step that leaves the files of other executions. -/
def Touches (id : JsString) (_ : Label) (s s' : StateRoot) : Prop :=
  ∀ other, other ≠ id → s'.executions other = s.executions other

section Touches

variable {id : JsString} {env : Environment} {stateRoot : JsString}

theorem touches_of_keeps {α : Type} {p : StoreProg α} (h : p.Steps KeepsExecutions) :
    p.Steps (Touches id) :=
  h.mono fun _ _ _ hsame _ _ => congrFun hsame _

theorem touches_inspect {α : Type} {op : Operation} {f : StateRoot → Except StoreFailure α} :
    (env.inspect op f).Steps (Touches id) := touches_of_keeps keeps_inspect

theorem touches_perform {α : Type} {op : Operation}
    {f : StateRoot → Except StoreFailure α × StateRoot} (h : ∀ s, Touches id .quiet s (f s).2) :
    (env.perform op f).Steps (Touches id) := by
  unfold Environment.perform Environment.perform_labelled
  cases env.faults [] op with
  | some message => exact trivial
  | none => exact Prog.steps_atomic h

theorem touches_files (s : StateRoot) (f : ExecutionFiles → ExecutionFiles) :
    Touches id .quiet s (s.at_execution id f) :=
  fun _ hother => StateRoot.at_execution_other s hother f

theorem touches_none (s : StateRoot) : Touches id .quiet s s := fun _ _ => rfl

theorem touches_ignore {p : StoreProg Unit} (h : p.Steps (Touches id)) :
    (ignore p).Steps (Touches id) := (Prog.Steps.attempt h).bind fun _ => trivial

theorem touches_read {other : JsString} : (readRecord env stateRoot other).Steps (Touches id) :=
  touches_inspect.bind fun _ => touches_inspect

theorem touches_prepare {create : Bool} :
    (prepareExecutionDirectory env stateRoot create).Steps (Touches id) := by
  unfold prepareExecutionDirectory make_executions_directory
  refine Prog.Steps.bind ?_ fun created => touches_inspect.bind fun _ => ?_
  · by_cases hcreate : create = true
    · rw [if_pos hcreate]
      exact touches_perform fun _ _ _ => rfl
    · rw [if_neg hcreate]
      exact trivial
  · by_cases hcreated : created = true
    · rw [if_pos hcreated]
      exact touches_inspect
    · rw [if_neg hcreated]
      exact trivial

theorem touches_verified {other : JsString} {d : ControlledBuildExecutionRecordV1} :
    (verifiedStoredRecord env stateRoot other d).Steps (Touches id) := by
  unfold verifiedStoredRecord
  refine touches_read.bind fun document => ?_
  by_cases hsame : document ≠ d
  · rw [if_pos hsame]
    exact trivial
  · rw [if_neg hsame]
    exact touches_inspect.bind fun _ => trivial

theorem touches_temporary {op : Operation} {file : Option StoredFile} :
    (env.change op (set_temporary env id file)).Steps (Touches id) := by
  unfold set_temporary
  exact touches_perform fun s => touches_files s fun files =>
    { files with temporaries := Function.update files.temporaries env.call file }

theorem touches_stage (env : Environment) (d : ControlledBuildExecutionRecordV1) :
    (stage env id d).Steps (Touches id) := by
  unfold stage rename_temporary
  refine Prog.Steps.bind (touches_perform fun s => ?_) fun _ => touches_temporary.bind fun _ =>
    touches_inspect.bind fun _ => touches_temporary.bind fun _ => touches_inspect.bind fun _ =>
    touches_perform fun s => ?_
  · cases (s.executions id).temporaries env.call with
    | some file => exact touches_none s
    | none =>
      unfold set_temporary
      dsimp only
      exact touches_files s _
  · cases (s.executions id).temporaries env.call with
    | some file =>
      dsimp only
      exact touches_files s _
    | none => exact touches_none s

theorem touches_transition {busy : JsString} {on_exists : StoreCode}
    {prepare : StoreProg ControlledBuildExecutionRecordV1} (h : prepare.Steps (Touches id)) :
    (transition env stateRoot id busy on_exists prepare).Steps (Touches id) := by
  have htemporary : (ignore (unlink_temporary env id)).Steps (Touches id) :=
    touches_ignore touches_temporary
  have hunlock : (ignore (unlink_lock env id)).Steps (Touches id) :=
    touches_ignore (touches_perform fun s => touches_files s fun files => { files with lock := none })
  have hopen : (open_lock env id busy).Steps (Touches id) := by
    unfold open_lock
    refine touches_perform fun s => ?_
    cases (s.executions id).lock with
    | some call => exact touches_none s
    | none =>
      dsimp only
      exact touches_files s _
  unfold transition
  refine (Prog.Steps.attempt hopen).bind fun opened => ?_
  cases opened with
  | error e => exact htemporary.bind fun _ => trivial
  | ok _ =>
    have hstaged := h.bind fun document => (touches_stage (env.part 1) document).bind
      fun _ => Prog.steps_pure (a := document)
    refine (Prog.Steps.attempt hstaged).bind fun staged => ?_
    cases staged with
    | error e => exact htemporary.bind fun _ => hunlock.bind fun _ => trivial
    | ok document =>
      exact (Prog.Steps.attempt (touches_inspect.bind fun _ => touches_verified)).bind
        fun verified => hunlock.bind fun _ => Prog.steps_lift

theorem touches_begin {input : ExecutionIdentity} (hid : input.executionId = id) :
    (beginExecutionRecord env stateRoot input).Steps (Touches id) := by
  subst hid
  unfold beginExecutionRecord
  by_cases hvalid : (!valid_begin_input input) = true
  · rw [if_pos hvalid]
    exact trivial
  · rw [if_neg hvalid]
    exact touches_prepare.bind fun _ => touches_transition touches_inspect

theorem touches_finalize {finishedAt : JsString} {status : TerminalStatus}
    {outcome : ControlledBuildExecutionOutcomeV1} :
    (finalizeExecutionRecord env stateRoot id status finishedAt outcome).Steps (Touches id) := by
  unfold finalizeExecutionRecord
  by_cases hvalid : (!execution_id_pattern id || decide (outcome.buildExecution ≠ status)) = true
  · rw [if_pos hvalid]
    exact trivial
  · rw [if_neg hvalid]
    refine touches_prepare.bind fun _ => touches_transition (touches_read.bind fun running => ?_)
    by_cases hstate : running.executionId ≠ id ∨ running.status ≠ .running ∨ running.outcome ≠ none
    · rw [if_pos hstate]
      exact trivial
    · rw [if_neg hstate]
      exact trivial

end Touches

/-! ## What one thread writes -/

/-- The records are as they are named, and the files of the other executions are those of
the start. -/
structure Kept (Names : JsString → ControlledBuildExecutionRecordV1 → Prop) (id : JsString)
    (start s : StateRoot) : Prop where
  named : WellNamed Names s
  elsewhere : ∀ other, other ≠ id → s.executions other = start.executions other

/-- `Q` holds of what a program returns, and `Kept` wherever it can stop. -/
structure Keeps (Names : JsString → ControlledBuildExecutionRecordV1 → Prop) (id : JsString)
    (start : StateRoot) {α : Type} (Q : α → Prop) (p : StoreProg α) (s : StateRoot) : Prop where
  holds : Prog.Holds (Kept Names id start) (fun a _ => Q a) (fun _ _ => True) p s

section Keeps

variable {Names : JsString → ControlledBuildExecutionRecordV1 → Prop} {id : JsString}
  {start s : StateRoot} {α : Type} {env : Environment} {stateRoot : JsString}

theorem Keeps.weaken {Q Q' : α → Prop} {p : StoreProg α} (h : Keeps Names id start Q p s)
    (hQ : ∀ a, Q a → Q' a) : Keeps Names id start Q' p s :=
  ⟨h.holds.mono (fun _ hs => hs) (fun a _ _ ha => hQ a ha) fun _ _ _ h => h⟩

/-- The triples of the record store, read for one thread. -/
theorem keeps_of_does {Q : α → Prop} {p : StoreProg α} {M : α → StateRoot → Prop}
    {E : StoreFailure → StateRoot → Prop} (hs : Kept Names id start s)
    (h : Prog.Does (fun _ => WellNamed Names) (fun _ _ => False) (fun _ _ => WellNamed Names)
      (fun _ => True) p M E) (ht : p.Steps (Touches id)) (hQ : ∀ a t, M a t → Q a) :
    Keeps Names id start Q p s := by
  have hnamed : Prog.Holds (WellNamed Names) M E p s :=
    Prog.Guarded.holds (I := WellNamed Names) (fun _ _ ht => ht) (fun _ _ _ ht => ht)
      (h.guarded s trivial) hs.named
  have helsewhere := ht.holds (J := fun t => ∀ other, other ≠ id →
    t.executions other = start.executions other)
    (fun _ _ _ hstep hbefore other hother => (hstep other hother).trans (hbefore other hother))
    hs.elsewhere
  exact ⟨(hnamed.and helsewhere).mono (fun _ ht => ⟨ht.1, ht.2⟩) (fun a t _ ht => hQ a t ht.1)
    fun _ _ _ _ => trivial⟩

theorem keeps_rules : StoreRules (fun _ => WellNamed Names) (fun _ _ => WellNamed Names) Names :=
  ⟨fun _ hs => hs, fun _ _ _ _ hs => hs⟩

/-- A program that leaves the records alone. -/
theorem keeps_others {p : StoreProg α} (hs : Kept Names id start s) (h : p.Steps KeepsExecutions) :
    Keeps Names id start (fun _ => True) p s := by
  refine ⟨(h.holds (J := Kept Names id start) (fun _ _ _ hsame hbefore => ?_) hs).mono
    (fun _ ht => ht) (fun _ _ _ _ => trivial) fun _ _ _ _ => trivial⟩
  refine ⟨hbefore.named.of_executions hsame, fun other hother => ?_⟩
  rw [show _ = _ from hsame]
  exact hbefore.elsewhere other hother

theorem keeps_begin {input : ExecutionIdentity} (hs : Kept Names id start s)
    (hid : input.executionId = id) (hnames : Names id input.started) :
    Keeps Names id start (fun _ => True) (beginExecutionRecord env stateRoot input) s := by
  subst hid
  exact keeps_of_does hs (does_begin_record keeps_rules crash_assertion hnames) (touches_begin rfl)
    fun _ _ _ => trivial

theorem keeps_finalize {finishedAt : JsString} {status : TerminalStatus}
    {outcome : ControlledBuildExecutionOutcomeV1} (hs : Kept Names id start s)
    (hfinished : ∀ d : ControlledBuildExecutionRecordV1, Names id d → d.executionId = id →
      d.status = .running → Names id (d.finished status finishedAt outcome)) :
    Keeps Names id start (fun _ => True)
      (finalizeExecutionRecord env stateRoot id status finishedAt outcome) s :=
  keeps_of_does hs (does_finalize_named keeps_rules crash_assertion hfinished) touches_finalize
    fun _ _ _ => trivial

theorem keeps_acquire {input : LockIdentity} :
    (acquireBuildLock env stateRoot input).Steps KeepsExecutions := by
  unfold acquireBuildLock
  by_cases hvalid : (!valid_lock env.date_parse (lock_document input)) = true
  · rw [if_pos hvalid]
    exact trivial
  · rw [if_neg hvalid]
    refine keeps_lock_directory.bind fun _ => Prog.Steps.bind ?_ fun created => ?_
    · exact keeps_create_lock.map_error
    · by_cases hcreated : created = true
      · rw [if_pos hcreated]
        refine (Prog.Steps.attempt keeps_write_lock).bind fun written => ?_
        cases written with
        | ok stored => exact trivial
        | error e => exact keeps_unlink_created.bind fun _ => trivial
      · rw [if_neg hcreated]
        exact keeps_wait_for_owner _ _

/-- What a look finds is found in a state that is kept. -/
theorem keeps_look {F : α → Prop} {p : StoreProg α} (hs : Kept Names id start s)
    (h : Looks s F p) : Keeps Names id start F p s :=
  ⟨Prog.Holds.mono h (fun _ ht => ht ▸ hs) (fun _ _ _ ht => ht.2) fun _ _ _ _ => trivial⟩

theorem Keeps.bind {β : Type} {Q : α → Prop} {M : β → Prop} {p : StoreProg β}
    {f : β → StoreProg α} (h : Keeps Names id start M p s)
    (hf : ∀ b t, Kept Names id start t → M b → Keeps Names id start Q (f b) t) :
    Keeps Names id start Q (p >>= f) s :=
  ⟨h.holds.bind fun b t ht hb => (hf b t ht hb).holds⟩

theorem keeps_attempt {Q : Except StoreFailure α → Prop} {p : StoreProg α}
    (h : Keeps Names id start (fun a => Q (.ok a)) p s) (herror : ∀ e, Q (.error e)) :
    Keeps Names id start Q (p.attempt : StoreProg (Except StoreFailure α)) s :=
  ⟨Prog.holds_attempt.mpr (h.holds.mono (fun _ hs => hs) (fun _ _ _ ha => ha)
    fun e _ _ _ => herror e)⟩

theorem keeps_pure {Q : α → Prop} {a : α} (hs : Kept Names id start s) (ha : Q a) :
    Keeps Names id start Q (pure a) s := ⟨hs, ha⟩

theorem keeps_lift {Q : α → Prop} {x : Except StoreFailure α} (hs : Kept Names id start s)
    (h : ∀ a, x = .ok a → Q a) : Keeps Names id start Q (Prog.lift x) s :=
  ⟨Prog.holds_lift.mpr ⟨hs, h, fun _ _ => trivial⟩⟩

end Keeps

/-! ## The transaction -/

/-- Nobody else changes the evidence while the transaction runs. -/
def ReuseReadings.Undisturbed (r : ReuseReadings) : Prop :=
  r.binding = r.initialBinding ∧ r.attestation = r.initialAttestation

/-- The transaction reuses the build of this record: it is the latest of the compatible ones
in the store, and its trees are those of the project. -/
structure Reuses (date_parse : JsString → Option ℤ) (s : StateRoot) (r : ReuseReadings)
    (source : ControlledBuildExecutionRecordV1) (evidence : ProjectBuildReuseEvidenceV1) : Prop where
  chosen : ∃ binding attestation, r.initialBinding = some binding ∧
    r.initialAttestation = some attestation ∧
    Chosen date_parse s (r.candidates binding attestation) source
  evidence_eq : reuse_evidence source = some evidence
  trees : ∃ input output, r.trees = .ok (input, output) ∧ SameTree evidence.projectInput input ∧
    SameTree evidence.projectOutput output

/-- Whatever the transaction has written of its own record, the directory is listed. -/
def Listed (readdir : StateRoot → List JsString) (id : JsString) (start : StateRoot) : Prop :=
  ∀ s : StateRoot, (∀ other, other ≠ id → s.executions other = start.executions other) →
    ListsRecords readdir s

/-- The records that a transaction writes are as they are named. -/
structure Admits (Names : JsString → ControlledBuildExecutionRecordV1 → Prop)
    (date_parse : JsString → Option ℤ) (s : StateRoot) (r : ReuseReadings) : Prop where
  started : ∀ binding attestation key before, r.initialBinding = some binding →
    r.initialAttestation = some attestation →
    Names r.executionId (r.record binding attestation key before).started
  failed : ∀ d outcome, Names r.executionId d →
    Names r.executionId (d.finished .failed r.finishedAt outcome)
  reused : ∀ d candidate evidence tree, Names r.executionId d →
    Reuses date_parse s r candidate.document evidence →
    Names r.executionId (d.finished .reused r.finishedAt (reused_outcome candidate evidence tree))
  own : ∀ d, Names r.executionId d → d.status ≠ .terminal .completed

section Transaction

variable {Names : JsString → ControlledBuildExecutionRecordV1 → Prop} {env : ReuseEnvironment}
  {stateRoot : JsString} {r : ReuseReadings} {start s : StateRoot}

theorem StoredAt.named {id : JsString} {d : ControlledBuildExecutionRecordV1} (h : StoredAt s id d)
    (hnamed : WellNamed Names s) : Names id d := by
  obtain ⟨file, hfile, hdocument⟩ := h
  exact hnamed.records id file hfile d hdocument

/-- The record of the transaction itself is never chosen, so the choice is one among the
records of the start. -/
theorem Chosen.at_start {identity : ReuseIdentity} {source : ControlledBuildExecutionRecordV1}
    (h : Chosen env.date_parse s identity source) (hs : Kept Names r.executionId start s)
    (hstart : WellNamed Names start)
    (hown : ∀ d, Names r.executionId d → d.status ≠ .terminal .completed) :
    Chosen env.date_parse start identity source := by
  -- a compatible record of either state is at another id, so it is in both
  have hother : ∀ t, WellNamed Names t → ∀ id d, StoredAt t id d → Compatible identity d →
      id ≠ r.executionId := by
    rintro t ht id d hd hcompatible rfl
    have hno : successfulCandidate ⟨[], [], d⟩ identity = false :=
      not_candidate (hown d (hd.named ht)) identity
    rw [show successfulCandidate _ identity = true from hcompatible] at hno
    cases hno
  have hsame : ∀ id d, id ≠ r.executionId → (StoredAt s id d ↔ StoredAt start id d) := by
    intro id d hid
    unfold StoredAt
    rw [hs.elsewhere id hid]
  obtain ⟨id, hid⟩ := h.stored
  refine ⟨⟨id, (hsame id _ (hother s hs.named id _ hid h.compatible)).mp hid⟩, h.valid,
    h.compatible, fun other_id other hother' hcompatible => ?_⟩
  exact h.latest other_id other
    ((hsame _ _ (hother start hstart _ _ hother' hcompatible)).mpr hother') hcompatible

/-- What a verification says when it allows a reuse. -/
def Verified (date_parse : JsString → Option ℤ) (s : StateRoot) (r : ReuseReadings)
    (v : Verification) : Prop :=
  ∀ candidate evidence tree, v.reusable r.cancelled.isSome = some (candidate, evidence, tree) →
    Reuses date_parse s r candidate.document evidence

/-- **The verification under the lock.** -/
theorem keeps_verify (env : ReuseEnvironment) {binding : LoadedBinding} {attestation : LoadedAttestation} {before : List Str}
    (hs : Kept Names r.executionId start s) (hstart : WellNamed Names start)
    (hadmits : Admits Names env.date_parse start r) (hreaddir : Listed env.readdir r.executionId start)
    (hundisturbed : r.Undisturbed) :
    Keeps Names r.executionId start (Verified env.date_parse start r)
      (verify_under_lock r env stateRoot binding attestation before) s := by
  unfold verify_under_lock
  refine (keeps_lift (Q := fun _ => True) hs fun _ _ => trivial).bind fun preflight t ht _ => ?_
  refine Keeps.bind (M := fun snapshot => snapshot.eligible = true →
    ∃ candidate evidence, snapshot.candidate = some candidate ∧
      reuse_evidence candidate.document = some evidence ∧
      Reuses env.date_parse start r candidate.document evidence) ?_
    fun snapshot u hu hsnapshot => ?_
  · unfold evaluate_if_valid
    cases hbinding : r.binding with
    | none => exact keeps_pure ht fun h => absurd h Bool.false_ne_true
    | some binding =>
      cases hattestation : r.attestation with
      | none => exact keeps_pure ht fun h => absurd h Bool.false_ne_true
      | some attestation =>
        refine (keeps_look ht (looks_evaluate (hreaddir t ht.elsewhere))).weaken fun snapshot heligible h => ?_
        obtain ⟨candidate, evidence, input, output, hcandidate, hchosen, hevidence, htrees, hinput,
          houtput⟩ := heligible h
        refine ⟨candidate, evidence, hcandidate, hevidence, ⟨binding, attestation, ?_, ?_, ?_⟩,
          hevidence, input, output, htrees, hinput, houtput⟩
        · rw [← hundisturbed.1, hbinding]
        · rw [← hundisturbed.2, hattestation]
        · exact hchosen.at_start ht hstart hadmits.own
  · refine (keeps_lift (Q := fun _ => True) hu fun _ _ => trivial).bind fun projectAfter v hv _ =>
      keeps_pure hv fun candidate evidence tree hreusable => ?_
    unfold Verification.reusable at hreusable
    split at hreusable
    case isFalse => cases hreusable
    case isTrue happroved =>
      obtain ⟨-, heligible⟩ := Bool.and_eq_true_iff.mp happroved
      obtain ⟨found, recorded, hfound, hrecorded, hreuses⟩ := hsnapshot heligible
      dsimp only at hreusable
      rw [hfound] at hreusable
      cases htree : preflight.artifactTree with
      | none =>
        rw [htree] at hreusable
        cases hreusable
      | some found_tree =>
        rw [htree] at hreusable
        dsimp only at hreusable
        rw [hrecorded, Option.map_some, Option.some.injEq, Prod.mk.injEq, Prod.mk.injEq] at hreusable
        obtain ⟨rfl, rfl, -⟩ := hreusable
        exact hreuses

/-- What a report says when the transaction has reused a build. -/
def Reported (date_parse : JsString → Option ℤ) (s : StateRoot) (r : ReuseReadings)
    (report : ReuseTransactionReport) : Prop :=
  report.status = .reused → ∃ source evidence, Reuses date_parse s r source evidence ∧
    report.reusedFromExecutionId = some source.executionId

theorem not_reused {report : ReuseTransactionReport} (h : report.status = .failed) :
    Reported env.date_parse start r report := fun hreused => by
  rw [h] at hreused
  cases hreused

theorem keeps_finish {lock : StoredBuildLock} {status : TerminalStatus}
    {outcome : ControlledBuildExecutionOutcomeV1} {report : ReuseTransactionReport}
    (hs : Kept Names r.executionId start s)
    (hfinished : ∀ d : ControlledBuildExecutionRecordV1, Names r.executionId d →
      Names r.executionId (d.finished status r.finishedAt outcome))
    (hreport : Reported env.date_parse start r report) :
    Keeps Names r.executionId start (Reported env.date_parse start r)
      (finish_transaction env stateRoot r lock status outcome report) s := by
  unfold finish_transaction
  refine (keeps_finalize hs fun d hd _ _ => hfinished d hd).bind fun terminal t ht _ =>
    (keeps_others ht keeps_release).bind fun _ u hu _ =>
    (keeps_lift (Q := fun _ => True) hu fun _ _ => trivial).bind fun reference v hv _ => ?_
  exact keeps_pure hv hreport

theorem keeps_conclude {lock : StoredBuildLock} {verified : Except StoreFailure Verification}
    (hs : Kept Names r.executionId start s) (hadmits : Admits Names env.date_parse start r)
    (hverified : ∀ v, verified = .ok v → Verified env.date_parse start r v) :
    Keeps Names r.executionId start (Reported env.date_parse start r)
      (conclude env stateRoot r lock verified) s := by
  unfold conclude
  cases verified with
  | error e => exact keeps_finish hs (fun d hd => hadmits.failed d _ hd) (not_reused rfl)
  | ok v =>
    dsimp only
    cases hreusable : v.reusable r.cancelled.isSome with
    | none => exact keeps_finish hs (fun d hd => hadmits.failed d _ hd) (not_reused rfl)
    | some found =>
      obtain ⟨candidate, evidence, tree⟩ := found
      have hreuses := hverified v rfl candidate evidence tree hreusable
      exact keeps_finish hs (fun d hd => hadmits.reused d _ _ _ hd hreuses)
        fun _ => ⟨candidate.document, evidence, hreuses, rfl⟩

theorem keeps_begin_transaction {binding : LoadedBinding} {attestation : LoadedAttestation}
    {lock : StoredBuildLock} (hs : Kept Names r.executionId start s)
    (hadmits : Admits Names env.date_parse start r) (hbinding : r.initialBinding = some binding)
    (hattestation : r.initialAttestation = some attestation) :
    Keeps Names r.executionId start (fun _ => True)
      (begin_transaction env stateRoot r binding attestation lock) s := by
  unfold begin_transaction
  refine (keeps_lift (Q := fun _ => True) hs fun _ _ => trivial).bind fun before t ht _ => ?_
  refine (keeps_begin ht rfl (hadmits.started binding attestation lock.document.key before
    hbinding hattestation)).bind fun _ u hu _ => keeps_pure hu trivial

/-- From the acquisition of the lock on. -/
theorem keeps_transact {binding : LoadedBinding} {attestation : LoadedAttestation}
    (hstart : WellNamed Names start) (hadmits : Admits Names env.date_parse start r)
    (hreaddir : Listed env.readdir r.executionId start) (hundisturbed : r.Undisturbed)
    (hbinding : r.initialBinding = some binding)
    (hattestation : r.initialAttestation = some attestation) :
    Keeps Names r.executionId start (Reported env.date_parse start r)
      (transact env stateRoot r binding attestation) start := by
  have hs : Kept Names r.executionId start start := ⟨hstart, fun _ _ => rfl⟩
  have hdenied : Reported env.date_parse start r not_attempted := not_reused rfl
  unfold transact
  apply Keeps.bind (M := fun _ => True)
  · have hacquire : (acquireBuildLock (env.part 0) stateRoot (r.lock binding)).Steps
        KeepsExecutions := keeps_acquire
    exact keeps_attempt (keeps_others hs hacquire) fun _ => trivial
  intro acquired t ht _
  cases acquired with
  | error e => exact keeps_pure ht hdenied
  | ok lock =>
    apply Keeps.bind (M := fun _ => True)
    · exact keeps_attempt (keeps_begin_transaction ht hadmits hbinding hattestation) fun _ => trivial
    intro begun u hu _
    cases begun with
    | error e =>
      exact (keeps_others hu keeps_release).bind fun _ v hv _ => keeps_pure hv hdenied
    | ok before =>
      apply Keeps.bind (M := fun verified => ∀ v, verified = .ok v →
        Verified env.date_parse start r v)
      · have hverify : Keeps Names r.executionId start (Verified env.date_parse start r)
            (verify_under_lock r { env with toEnvironment := env.part 3 } stateRoot binding
              attestation before) u :=
          keeps_verify { env with toEnvironment := env.part 3 } hu hstart hadmits hreaddir hundisturbed
        refine keeps_attempt (hverify.weaken fun v hv w hw => ?_) fun e v hv => ?_
        · rw [← Except.ok.inj hw]
          exact hv
        · cases hv
      · exact fun verified w hw hverified => keeps_conclude hw hadmits hverified

/-- **The transaction.** Wherever it is stopped its record is as it is named and the others
are unchanged, and what it reports as reused is the build that was chosen. -/
theorem keeps_transaction (hstart : WellNamed Names start)
    (hadmits : Admits Names env.date_parse start r) (hreaddir : Listed env.readdir r.executionId start)
    (hundisturbed : r.Undisturbed) :
    Keeps Names r.executionId start (Reported env.date_parse start r)
      (runReuseTransaction env stateRoot r) start := by
  have hs : Kept Names r.executionId start start := ⟨hstart, fun _ _ => rfl⟩
  have hdenied : Reported env.date_parse start r not_attempted := not_reused rfl
  unfold runReuseTransaction
  by_cases hearly : (r.aborted || !r.inside) = true
  · rw [if_pos hearly]
    exact keeps_pure hs hdenied
  rw [if_neg hearly]
  cases hbinding : r.initialBinding with
  | none => exact keeps_pure hs hdenied
  | some binding =>
    cases hattestation : r.initialAttestation with
    | none => exact keeps_pure hs hdenied
    | some attestation =>
      exact keeps_transact hstart hadmits hreaddir hundisturbed hbinding hattestation

end Transaction

end LeanBun.Reuse
