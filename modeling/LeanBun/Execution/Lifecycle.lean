/-
The life of an execution record.

Any number of processes begin and finalize one execution, each of them stopped at any
point. Whoever created the lock file is the only one to rename over the record and the
only one to remove the lock file, so what it has read under the lock is still so when it
publishes. The documents that were at the record path are then none, one running
document, or that document and one terminal document that keeps its identity.
-/
import LeanBun.Execution.Rules
import LeanBun.Lib.Check

set_option autoImplicit false

namespace LeanBun.Execution

open LeanBun.Lib

/-! ## The calls -/

/-- A call on an execution. -/
inductive RecordCall where
  | begin (input : ExecutionIdentity)
  | finalize (status : TerminalStatus) (finishedAt : JsString)
      (outcome : ControlledBuildExecutionOutcomeV1)

/-- The program of a call. -/
def RecordCall.program (env : Environment) (stateRoot id : JsString) :
    RecordCall → StoreProg StoredExecutionRecord
  | .begin input => beginExecutionRecord env stateRoot { input with executionId := id }
  | .finalize status finishedAt outcome =>
    finalizeExecutionRecord env stateRoot id status finishedAt outcome

/-- The end of a process. -/
def process_gone (pid : ℤ) (s : StateRoot) : StateRoot :=
  { s with gone := Function.update s.gone pid true }

/-- All calls on one execution, each in some process. -/
def record_system (stateRoot id : JsString) (calls : ℕ → RecordCall) (envs : ℕ → Environment)
    (home : ℕ → ℤ) : System ℕ ℤ StateRoot Label StoreFailure StoredExecutionRecord where
  program i := (calls i).program { envs i with call := i } stateRoot id
  home := home
  gone := process_gone

/-! ## What happens to the record -/

section Lifecycle

variable (calls : ℕ → RecordCall) (id : JsString)

/-- The running document of a call. -/
def started_by (input : ExecutionIdentity) : ControlledBuildExecutionRecordV1 :=
  ({ input with executionId := id } : ExecutionIdentity).started

/-- The documents that were published, and the file that is there after the last. -/
inductive History : List (ℕ × ControlledBuildExecutionRecordV1) → Option StoredFile → Prop
  | absent : History [] none
  | running {b : ℕ} {input : ExecutionIdentity} (hbegin : calls b = .begin input) :
      History [(b, started_by id input)] (some ⟨some (started_by id input), true⟩)
  | terminal {b f : ℕ} {input : ExecutionIdentity} {status : TerminalStatus} {finishedAt : JsString}
      {outcome : ControlledBuildExecutionOutcomeV1} (hbegin : calls b = .begin input)
      (hfinalize : calls f = .finalize status finishedAt outcome) :
      History [(b, started_by id input), (f, (started_by id input).finished status finishedAt outcome)]
        (some ⟨some ((started_by id input).finished status finishedAt outcome), true⟩)

/-- The invariant of the store. -/
def Recorded (s : StateRoot) : Prop :=
  History calls id (s.executions id).published (s.executions id).record

/-- A document that a call may publish after some others. -/
def Next (i : ℕ) (document : ControlledBuildExecutionRecordV1)
    (published : List (ℕ × ControlledBuildExecutionRecordV1)) : Prop :=
  History calls id (published ++ [(i, document)]) (some ⟨some document, true⟩)

/-- What a call relies on: its temporary file is its own, the lock file is its own while
it is there, and while it is there nobody else publishes. -/
structure Relies (i : ℕ) (s s' : StateRoot) : Prop where
  temporary : (s'.executions id).temporaries i = (s.executions id).temporaries i
  locked : (s'.executions id).lock = some i ↔ (s.executions id).lock = some i
  kept : (s.executions id).lock = some i → (s'.executions id).record = (s.executions id).record ∧
    (s'.executions id).published = (s.executions id).published
  grows : (s.executions id).published <+: (s'.executions id).published

/-- What a step of a call does. -/
structure Guarantees (i : ℕ) (_ : Label) (s s' : StateRoot) : Prop where
  temporaries : ∀ j, j ≠ i → (s'.executions id).temporaries j = (s.executions id).temporaries j
  locks : ∀ j, j ≠ i → ((s'.executions id).lock = some j ↔ (s.executions id).lock = some j)
  publishes : ((s'.executions id).record = (s.executions id).record ∧
      (s'.executions id).published = (s.executions id).published) ∨
    ((s.executions id).lock = some i ∧ Recorded calls id s' ∧
      (s.executions id).published <+: (s'.executions id).published)

variable {calls id}

/-- What one call guarantees, the others rely on. -/
theorem Guarantees.relies {i : ℕ} {l : Label} {s s' : StateRoot} (h : Guarantees calls id i l s s')
    (hs : Recorded calls id s) :
    Recorded calls id s' ∧ ∀ j, j ≠ i → Relies id j s s' := by
  rcases h.publishes with ⟨hrecord, hpublished⟩ | ⟨hlock, hrecorded, hgrows⟩
  · refine ⟨?_, fun j hj => ⟨h.temporaries j hj, h.locks j hj, fun _ => ⟨hrecord, hpublished⟩, ?_⟩⟩
    · rw [Recorded, hrecord, hpublished]
      exact hs
    · exact hpublished ▸ List.prefix_refl _
  · refine ⟨hrecorded, fun j hj => ⟨h.temporaries j hj, h.locks j hj, fun hother => ?_, hgrows⟩⟩
    rw [hlock, Option.some.injEq] at hother
    exact absurd hother.symm hj

/-- The end of a process touches no file. -/
theorem gone_relies (pid : ℤ) (i : ℕ) (s : StateRoot) : Relies id i s (process_gone pid s) :=
  ⟨rfl, Iff.rfl, fun _ => ⟨rfl, rfl⟩, List.prefix_refl _⟩

/-! ## Steps under the lock -/

section Thread

variable {i : ℕ}

/-- The lock file is the call's own, and something holds of the record and of its
temporary file. -/
def Holding (id : JsString) (i : ℕ) (K : Option StoredFile →
    List (ℕ × ControlledBuildExecutionRecordV1) → Option StoredFile → Prop) (s : StateRoot) : Prop :=
  (s.executions id).lock = some i ∧
    K (s.executions id).record (s.executions id).published ((s.executions id).temporaries i)

theorem stable_holding (K : Option StoredFile →
    List (ℕ × ControlledBuildExecutionRecordV1) → Option StoredFile → Prop) :
    Prog.Stable (Relies id i) (Holding id i K) := by
  rintro s s' hrely ⟨hlock, hK⟩
  obtain ⟨hrecord, hpublished⟩ := hrely.kept hlock
  refine ⟨hrely.locked.mpr hlock, ?_⟩
  rw [hrecord, hpublished, hrely.temporary]
  exact hK

theorem stable_true : Prog.Stable (Relies id i) fun _ => True := fun _ _ _ _ => trivial

/-- What a call has published stays published. -/
theorem stable_published (document : ControlledBuildExecutionRecordV1) :
    Prog.Stable (Relies id i) fun s => (i, document) ∈ (s.executions id).published :=
  fun _ _ hrely hmem => hrely.grows.subset hmem

/-- The triples of a call: every step may rely on the invariant. -/
abbrev CallDoes (calls : ℕ → RecordCall) (id : JsString) (i : ℕ) {α : Type}
    (P : StateRoot → Prop) (p : StoreProg α) (Q : α → StateRoot → Prop)
    (E : StoreFailure → StateRoot → Prop) : Prop :=
  Prog.Does (fun l s => System.AnyStep l s ∧ Recorded calls id s) (Relies id i)
    (Guarantees calls id i) P p Q E

variable {α : Type} {P : StateRoot → Prop} {Q : α → StateRoot → Prop}
  {E : StoreFailure → StateRoot → Prop} {env : Environment}

theorem guarantees_refl (l : Label) (s : StateRoot) : Guarantees calls id i l s s :=
  ⟨fun _ _ => rfl, fun _ _ => Iff.rfl, Or.inl ⟨rfl, rfl⟩⟩

/-- A look at the files under the lock. -/
theorem does_look {op : Operation} {f : StateRoot → Except StoreFailure α}
    {K : Option StoredFile → List (ℕ × ControlledBuildExecutionRecordV1) → Option StoredFile → Prop}
    {K' : α → Option StoredFile → List (ℕ × ControlledBuildExecutionRecordV1) →
      Option StoredFile → Prop}
    (h : ∀ s a, Holding id i K s → Recorded calls id s → f s = .ok a → Holding id i (K' a) s) :
    CallDoes calls id i (Holding id i K) (env.inspect op f) (fun a => Holding id i (K' a))
      fun _ => Holding id i fun _ _ _ => True := by
  refine does_inspect (guarantees_refl _) (stable_holding _) (fun a => stable_holding _)
    (fun _ => stable_holding _) (fun _ s hs => ⟨hs.1, trivial⟩) fun s hs hallowed => ?_
  cases hf : f s with
  | ok a => exact h s a hs hallowed.2 hf
  | error e => exact ⟨hs.1, trivial⟩

/-- A change of the temporary file of the call. -/
theorem guarantees_temporary (hcall : env.call = i) (s : StateRoot) (file : Option StoredFile) :
    Guarantees calls id i .quiet s (set_temporary env id file s) := by
  unfold set_temporary
  refine ⟨fun j hj => ?_, fun j _ => ?_, Or.inl ⟨?_, ?_⟩⟩
  · rw [StateRoot.at_execution_self, hcall]
    exact Function.update_of_ne hj _ _
  · rw [StateRoot.at_execution_self]
  · rw [StateRoot.at_execution_self]
  · rw [StateRoot.at_execution_self]

/-- The same under the lock, with what is known of the temporary file. -/
theorem sets_temporary (hcall : env.call = i) {file : Option StoredFile} {s : StateRoot}
    {K : Option StoredFile → List (ℕ × ControlledBuildExecutionRecordV1) → Prop}
    {T : Option StoredFile → Prop} (hs : Holding id i (fun r p t => K r p ∧ T t) s) :
    Guarantees calls id i .quiet s (set_temporary env id file s) ∧
      Holding id i (fun r p t => K r p ∧ t = file) (set_temporary env id file s) := by
  refine ⟨guarantees_temporary hcall s file, ?_⟩
  unfold set_temporary Holding
  rw [StateRoot.at_execution_self, hcall]
  exact ⟨hs.1, hs.2.1, Function.update_self _ _ _⟩

theorem does_temporary {op : Operation} {file : Option StoredFile} (hcall : env.call = i)
    {K : Option StoredFile → List (ℕ × ControlledBuildExecutionRecordV1) → Prop}
    {T : Option StoredFile → Prop} :
    CallDoes calls id i (Holding id i fun r p t => K r p ∧ T t)
      (env.change op (set_temporary env id file))
      (fun _ => Holding id i fun r p t => K r p ∧ t = file)
      fun _ => Holding id i fun _ _ _ => True :=
  does_perform (stable_holding _) (fun _ => stable_holding _) (fun _ => stable_holding _)
    (fun _ _ hs => ⟨hs.1, trivial⟩) fun _ hs _ => sets_temporary hcall hs

/-- The rename under the lock publishes what the call may publish. -/
theorem does_rename {document : ControlledBuildExecutionRecordV1} (hcall : env.call = i) :
    CallDoes calls id i
      (Holding id i fun _ p t => Next calls id i document p ∧ t = some ⟨some document, true⟩)
      (rename_temporary env id document)
      (fun _ => Holding id i fun _ p _ => (i, document) ∈ p)
      fun _ => Holding id i fun _ _ _ => True := by
  refine does_perform (stable_holding _) (fun _ => stable_holding _) (fun _ => stable_holding _)
    (fun _ s hs => ⟨hs.1, trivial⟩) fun s hs _ => ?_
  obtain ⟨hlock, hnext, htemporary⟩ := hs
  rw [← hcall] at htemporary
  rw [htemporary]
  refine ⟨⟨fun j hj => ?_, fun j _ => ?_, Or.inr ⟨hlock, ?_, ?_⟩⟩, ?_, ?_⟩
  · rw [StateRoot.at_execution_self, hcall]
    exact Function.update_of_ne hj _ _
  · rw [StateRoot.at_execution_self]
  · rw [Recorded, StateRoot.at_execution_self, hcall]
    exact hnext
  · rw [StateRoot.at_execution_self]
    exact List.prefix_append _ _
  · rw [StateRoot.at_execution_self]
    exact hlock
  · rw [StateRoot.at_execution_self, hcall]
    exact List.mem_append_right _ List.mem_cons_self

/-- The publication of a document that the call may publish. -/
theorem does_stage {document : ControlledBuildExecutionRecordV1} (hcall : env.call = i) :
    CallDoes calls id i (Holding id i fun _ p _ => Next calls id i document p)
      (stage env id document) (fun _ => Holding id i fun _ p _ => (i, document) ∈ p)
      fun _ => Holding id i fun _ _ _ => True := by
  have hlook : ∀ {env' : Environment} {op : Operation} {T : Option StoredFile → Prop},
      CallDoes calls id i (Holding id i fun _ p t => Next calls id i document p ∧ T t)
        (env'.inspect op fun _ => .ok ())
        (fun _ => Holding id i fun _ p t => Next calls id i document p ∧ T t)
        fun _ => Holding id i fun _ _ _ => True :=
    does_look fun _ _ hs _ _ => hs
  unfold stage
  refine Prog.Does.bind (M := fun _ => Holding id i fun _ p t =>
    Next calls id i document p ∧ t = some ⟨none, false⟩) ?_ fun _ => ?_
  · -- the file of this call is opened when it is not there
    refine does_perform (stable_holding _) (fun _ => stable_holding _) (fun _ => stable_holding _)
      (fun _ s hs => ⟨hs.1, trivial⟩) fun s hs _ => ?_
    cases htemporary : (s.executions id).temporaries env.call with
    | some file => exact ⟨guarantees_refl _ s, hs.1, trivial⟩
    | none =>
      exact sets_temporary hcall (K := fun _ p => Next calls id i document p) (T := fun _ => True)
        ⟨hs.1, hs.2, trivial⟩
  refine (does_temporary hcall (K := fun _ p => Next calls id i document p)).bind fun _ => ?_
  refine hlook.bind fun _ => ?_
  refine (does_temporary hcall (K := fun _ p => Next calls id i document p)).bind fun _ => ?_
  refine hlook.bind fun _ => ?_
  exact does_rename hcall

/-! ## The lock file -/

/-- Whoever gets the lock file has created it. -/
theorem does_open_lock {busy : JsString} (hcall : env.call = i) :
    CallDoes calls id i (fun _ => True) (open_lock env id busy)
      (fun _ => Holding id i fun _ _ _ => True) fun _ _ => True := by
  refine does_perform stable_true (fun _ => stable_holding _) (fun _ => stable_true)
    (fun _ _ _ => trivial) fun s _ _ => ?_
  cases hlock : (s.executions id).lock with
  | some other => exact ⟨guarantees_refl _ s, trivial⟩
  | none =>
    refine ⟨⟨fun j _ => ?_, fun j hj => ?_, Or.inl ⟨?_, ?_⟩⟩, ?_, trivial⟩
    · rw [StateRoot.at_execution_self]
    · rw [StateRoot.at_execution_self, hlock, hcall]
      exact ⟨fun h => absurd (Option.some.inj h).symm hj, fun h => (by cases h)⟩
    · rw [StateRoot.at_execution_self]
    · rw [StateRoot.at_execution_self]
    · rw [StateRoot.at_execution_self, hcall]

/-- The lock file that is removed is the call's own. -/
theorem does_unlink_lock {D : StateRoot → Prop} {E : StoreFailure → StateRoot → Prop}
    (hD : Prog.Stable (Relies id i) D)
    (hfiles : ∀ s, D s → D (s.at_execution id fun files => { files with lock := none })) :
    CallDoes calls id i (fun s => Holding id i (fun _ _ _ => True) s ∧ D s)
      (ignore (unlink_lock env id)) (fun _ => D) E := by
  refine does_ignore hD (does_perform ((stable_holding _).and hD) (fun _ => hD) (fun _ => hD)
    (fun _ s hs => hs.2) fun s hs _ => ?_)
  refine ⟨⟨fun j _ => ?_, fun j hj => ?_, Or.inl ⟨?_, ?_⟩⟩, hfiles s hs.2⟩
  · rw [StateRoot.at_execution_self]
  · rw [StateRoot.at_execution_self, hs.1.1]
    exact ⟨fun h => (by cases h), fun h => absurd (Option.some.inj h).symm hj⟩
  · rw [StateRoot.at_execution_self]
  · rw [StateRoot.at_execution_self]

/-- The temporary file that is removed is the call's own. -/
theorem does_unlink_temporary (hcall : env.call = i) {D : StateRoot → Prop}
    {E : StoreFailure → StateRoot → Prop} (hD : Prog.Stable (Relies id i) D)
    (hfiles : ∀ s, D s → D (set_temporary env id none s)) :
    CallDoes calls id i D (ignore (unlink_temporary env id)) (fun _ => D) E :=
  does_ignore hD (does_perform hD (fun _ => hD) (fun _ => hD) (fun _ _ hs => hs) fun s hs _ =>
    ⟨guarantees_temporary hcall s none, hfiles s hs⟩)

/-! ## A transition -/

/-- Reading the record under the lock. -/
theorem does_read {stateRoot : JsString}
    {K : Option StoredFile → List (ℕ × ControlledBuildExecutionRecordV1) → Option StoredFile → Prop} :
    CallDoes calls id i (Holding id i K) (readRecord env stateRoot id)
      (fun document => Holding id i fun r p t => K r p t ∧ History calls id p r ∧
        r.bind StoredFile.document = some document)
      fun _ => Holding id i fun _ _ _ => True := by
  unfold readRecord inspect_record read_record
  refine Prog.Does.bind (M := fun _ => Holding id i K) (does_look fun s _ hs _ _ => hs) fun _ => ?_
  refine does_look fun s document hs hrecorded hread => ?_
  cases hfile : (s.executions id).record.bind StoredFile.document with
  | none =>
    rw [hfile] at hread
    cases hread
  | some found =>
    rw [hfile] at hread
    dsimp only at hread
    by_cases hvalid : valid_record env.date_parse found = true
    · rw [if_pos hvalid, Except.ok.injEq] at hread
      subst hread
      exact ⟨hs.1, hs.2, hrecorded, hfile⟩
    · rw [if_neg hvalid] at hread
      cases hread

/-- The readback of what the call has published. -/
theorem does_verified {stateRoot : JsString} {document : ControlledBuildExecutionRecordV1} :
    CallDoes calls id i (Holding id i fun _ p _ => (i, document) ∈ p)
      (verifiedStoredRecord env stateRoot id document)
      (fun stored => Holding id i fun _ p _ => (i, stored.document) ∈ p)
      fun _ => Holding id i fun _ _ _ => True := by
  unfold verifiedStoredRecord
  refine does_read.bind fun read => ?_
  by_cases hsame : read = document
  · rw [if_neg (not_not.mpr hsame)]
    refine Prog.Does.bind (M := fun _ => Holding id i fun _ p _ => (i, read) ∈ p)
      (does_look fun s _ hs _ _ => ⟨hs.1, hsame ▸ hs.2.1⟩) fun _ => ?_
    exact Prog.does_pure (stable_holding _) fun _ hs => hs
  · rw [if_pos hsame]
    exact Prog.does_fail (stable_holding _) fun _ hs => ⟨hs.1, trivial⟩

/-- **A transition.** With a `prepare` that decides on a document the call may publish, a
transition that succeeds has published its document. -/
theorem does_transition {stateRoot busy : JsString} {on_exists : StoreCode} (hcall : env.call = i)
    {prepare : StoreProg ControlledBuildExecutionRecordV1}
    (hprepare : CallDoes calls id i (Holding id i fun _ _ _ => True) prepare
      (fun document => Holding id i fun _ p _ => Next calls id i document p)
      fun _ => Holding id i fun _ _ _ => True) :
    CallDoes calls id i (fun _ => True) (transition env stateRoot id busy on_exists prepare)
      (fun stored s => (i, stored.document) ∈ (s.executions id).published) fun _ _ => True := by
  refine does_transition_of (D := fun document => Holding id i fun _ p _ => (i, document) ∈ p)
    (F := fun document s => (i, document) ∈ (s.executions id).published) stable_true
    (fun _ => stable_holding _) stable_published (does_open_lock hcall) hprepare
    (fun _ => does_stage (show (env.part 1).call = i from hcall)) (fun _ => does_look fun _ _ hs _ _ => hs)
    (fun _ => does_verified) (does_unlink_temporary hcall stable_true fun _ _ => trivial)
    (does_unlink_temporary hcall (stable_holding _) fun s hs => ?_)
    ((does_unlink_lock (D := fun _ => True) stable_true fun _ _ => trivial).weaken
      (fun _ hs => ⟨hs, trivial⟩) (fun _ _ hs => hs) fun _ _ hs => hs)
    fun document => ((does_unlink_lock (stable_published document) fun s hs => ?_).weaken
      (fun _ hs => ⟨⟨hs.1, trivial⟩, hs.2⟩) (fun _ _ hs => hs) fun _ _ hs => hs)
  · unfold set_temporary Holding
    rw [StateRoot.at_execution_self]
    exact ⟨hs.1, trivial⟩
  · rw [StateRoot.at_execution_self]
    exact hs

/-! ## The two operations -/

theorem guarantees_same {l : Label} {s s' : StateRoot} (h : s'.executions id = s.executions id) :
    Guarantees calls id i l s s' := by
  refine ⟨fun _ _ => ?_, fun _ _ => ?_, Or.inl ⟨?_, ?_⟩⟩
  · rw [h]
  · rw [h]
  · rw [h]
  · rw [h]

theorem does_prepare_directory {stateRoot : JsString} {create : Bool} :
    CallDoes calls id i (fun _ => True) (prepareExecutionDirectory env stateRoot create)
      (fun _ _ => True) fun _ _ => True := by
  have hlook : ∀ {α : Type} {op : Operation} {f : StateRoot → Except StoreFailure α},
      CallDoes calls id i (fun _ => True) (env.inspect op f) (fun _ _ => True) fun _ _ => True := by
    intro α op f
    exact does_look_past (guarantees_refl _) stable_true
  unfold prepareExecutionDirectory make_executions_directory
  refine Prog.Does.bind (M := fun _ _ => True) ?_ fun created => ?_
  · cases create with
    | false => exact Prog.does_pure stable_true fun _ _ => trivial
    | true =>
      exact does_perform stable_true (fun _ => stable_true) (fun _ => stable_true)
        (fun _ _ _ => trivial) fun s _ _ => ⟨guarantees_same rfl, trivial⟩
  · refine Prog.Does.bind (M := fun _ _ => True) hlook fun _ => ?_
    cases created with
    | false => exact Prog.does_pure stable_true fun _ _ => trivial
    | true => exact hlook

/-- A begin that succeeds has published its running document. -/
theorem does_begin {stateRoot : JsString} {input : ExecutionIdentity} (hcall : env.call = i)
    (hi : calls i = .begin input) :
    CallDoes calls id i (fun _ => True)
      (beginExecutionRecord env stateRoot { input with executionId := id })
      (fun stored s => (i, stored.document) ∈ (s.executions id).published) fun _ _ => True := by
  unfold beginExecutionRecord
  by_cases hvalid : (!valid_begin_input { input with executionId := id }) = true
  · rw [if_pos hvalid]
    exact Prog.does_fail stable_true fun _ _ => trivial
  · rw [if_neg hvalid]
    refine does_prepare_directory.bind fun _ => does_transition
      (show (env.part 1).call = i from hcall) ?_
    refine does_look fun s document hs hrecorded hlook => ?_
    cases hrecord : (s.executions id).record with
    | some file =>
      rw [hrecord] at hlook
      cases hlook
    | none =>
      rw [hrecord, Except.ok.injEq] at hlook
      rw [Recorded, hrecord] at hrecorded
      refine ⟨hs.1, ?_⟩
      rw [← hlook]
      generalize (s.executions id).published = published at hrecorded
      cases hrecorded
      exact History.running hi

/-- A finalize that succeeds has published its terminal document. -/
theorem does_finalize {stateRoot finishedAt : JsString} {status : TerminalStatus}
    {outcome : ControlledBuildExecutionOutcomeV1} (hcall : env.call = i)
    (hi : calls i = .finalize status finishedAt outcome) :
    CallDoes calls id i (fun _ => True)
      (finalizeExecutionRecord env stateRoot id status finishedAt outcome)
      (fun stored s => (i, stored.document) ∈ (s.executions id).published) fun _ _ => True := by
  unfold finalizeExecutionRecord
  by_cases hvalid : (!execution_id_pattern id || decide (outcome.buildExecution ≠ status)) = true
  · rw [if_pos hvalid]
    exact Prog.does_fail stable_true fun _ _ => trivial
  · rw [if_neg hvalid]
    refine does_prepare_directory.bind fun _ => does_transition
      (show (env.part 1).call = i from hcall) ?_
    unfold prepare_finalize
    refine does_read.bind fun running => ?_
    by_cases hstate : running.executionId ≠ id ∨ running.status ≠ .running ∨ running.outcome ≠ none
    · rw [if_pos hstate]
      exact Prog.does_fail (stable_holding _) fun _ hs => ⟨hs.1, trivial⟩
    · rw [if_neg hstate]
      refine Prog.does_pure (stable_holding _) fun s hs => ⟨hs.1, ?_⟩
      obtain ⟨-, hhistory, hdocument⟩ := hs.2
      have hrunning : running.status = .running :=
        not_not.mp fun hne => hstate (Or.inr (Or.inl hne))
      generalize (s.executions id).published = published at hhistory
      generalize (s.executions id).record = record at hhistory hdocument
      cases hhistory with
      | absent => cases hdocument
      | running hbegin =>
        rw [Option.bind_some, Option.some.injEq] at hdocument
        rw [← hdocument]
        exact History.terminal hbegin hi
      | terminal hbegin hfinalize =>
        rw [Option.bind_some, Option.some.injEq] at hdocument
        rw [← hdocument] at hrunning
        cases hrunning

end Thread

/-! ## Every run -/

section Run

variable {stateRoot : JsString} {envs : ℕ → Environment} {home : ℕ → ℤ} {s : StateRoot}
  {pool : Pool ℕ StateRoot Label StoreFailure StoredExecutionRecord}

/-- A call publishes what it returns. -/
theorem does_call (i : ℕ) : CallDoes calls id i (fun _ => True)
    ((record_system stateRoot id calls envs home).program i)
    (fun stored s => (i, stored.document) ∈ (s.executions id).published) fun _ _ => True := by
  unfold record_system RecordCall.program
  dsimp only
  cases hi : calls i with
  | begin input => exact does_begin rfl hi
  | finalize status finishedAt outcome => exact does_finalize rfl hi

/-- In every pool of a run the store is in one of its states, and every call is guarded. -/
theorem run_recorded (hfresh : s.executions id = ⟨none, none, fun _ => none, []⟩)
    (hrun : (record_system stateRoot id calls envs home).Run System.AnyStep s pool) :
    Recorded calls id pool.shared ∧ ∀ i p, pool.threads i = some p →
      p.Guarded (fun l s => System.AnyStep l s ∧ Recorded calls id s) (Relies id i)
        (Guarantees calls id i) (Prog.ends
          (fun stored s => (i, stored.document) ∈ (s.executions id).published) fun _ _ => True)
        pool.shared := by
  refine hrun.guarded (I := Recorded calls id) ?_ (fun i => (does_call i).guarded s trivial)
    (fun i l s s' _ hs hstep => hstep.relies hs) fun p s hs => ⟨hs, fun j _ => gone_relies p j s⟩
  rw [Recorded, hfresh]
  exact History.absent

/-- **What is published stays published.** -/
theorem published_grows (hfresh : s.executions id = ⟨none, none, fun _ => none, []⟩)
    (hrun : (record_system stateRoot id calls envs home).Run System.AnyStep s pool)
    {pool' : Pool ℕ StateRoot Label StoreFailure StoredExecutionRecord}
    (hlater : Relation.ReflTransGen ((record_system stateRoot id calls envs home).Move
      System.AnyStep) pool pool') :
    (pool.shared.executions id).published <+: (pool'.shared.executions id).published := by
  induction hlater with
  | refl => exact List.prefix_refl _
  | @tail middle last hmoves hmove ih =>
    refine ih.trans ?_
    obtain ⟨hrecorded, hthreads⟩ := run_recorded hfresh (hrun.trans hmoves)
    cases hmove with
    | step i hthread hallowed =>
      obtain ⟨hstep, -⟩ := (hthreads i _ hthread).step ⟨hallowed, hrecorded⟩
      rcases hstep.publishes with ⟨-, hsame⟩ | ⟨-, -, hgrows⟩
      · exact hsame ▸ List.prefix_refl _
      · exact hgrows
    | stop p => exact List.prefix_refl _

/-- What the call of a successful thread has published. -/
theorem result_published (hfresh : s.executions id = ⟨none, none, fun _ => none, []⟩)
    (hrun : (record_system stateRoot id calls envs home).Run System.AnyStep s pool) {i : ℕ}
    {stored : StoredExecutionRecord} (hi : pool.threads i = some (.done stored)) :
    (i, stored.document) ∈ (pool.shared.executions id).published :=
  Prog.Guarded.result (x := .ok stored) ((run_recorded hfresh hrun).2 i _ hi)

end Run

/-- A history has one call of each kind at most. -/
theorem History.begin_unique {published : List (ℕ × ControlledBuildExecutionRecordV1)}
    {record : Option StoredFile} (h : History calls id published record) {i j : ℕ}
    {d d' : ControlledBuildExecutionRecordV1} {input input' : ExecutionIdentity}
    (hi : calls i = .begin input) (hj : calls j = .begin input') (hmem : (i, d) ∈ published)
    (hmem' : (j, d') ∈ published) : i = j := by
  have hone : ∀ {k : ℕ} {e : ControlledBuildExecutionRecordV1} {x : ExecutionIdentity},
      calls k = .begin x → (k, e) ∈ published → published.head?.map Prod.fst = some k := by
    intro k e x hk hmem
    cases h with
    | absent => cases hmem
    | running hbegin =>
      rw [List.mem_singleton, Prod.mk.injEq] at hmem
      rw [hmem.1]
      rfl
    | terminal hbegin hfinalize =>
      rcases List.mem_cons.mp hmem with hmem | hmem
      · rw [Prod.mk.injEq] at hmem
        rw [hmem.1]
        rfl
      · rw [List.mem_singleton, Prod.mk.injEq] at hmem
        rw [hmem.1, hfinalize] at hk
        cases hk
  exact Option.some.inj ((hone hi hmem).symm.trans (hone hj hmem'))

theorem History.finalize_unique {published : List (ℕ × ControlledBuildExecutionRecordV1)}
    {record : Option StoredFile} (h : History calls id published record) {i j : ℕ}
    {d d' : ControlledBuildExecutionRecordV1} {status status' : TerminalStatus}
    {finishedAt finishedAt' : JsString} {outcome outcome' : ControlledBuildExecutionOutcomeV1}
    (hi : calls i = .finalize status finishedAt outcome)
    (hj : calls j = .finalize status' finishedAt' outcome') (hmem : (i, d) ∈ published)
    (hmem' : (j, d') ∈ published) : i = j := by
  have hone : ∀ {k : ℕ} {e : ControlledBuildExecutionRecordV1} {a : TerminalStatus} {b : JsString}
      {c : ControlledBuildExecutionOutcomeV1}, calls k = .finalize a b c → (k, e) ∈ published →
        published.getLast?.map Prod.fst = some k := by
    intro k e a b c hk hmem
    cases h with
    | absent => cases hmem
    | running hbegin =>
      rw [List.mem_singleton, Prod.mk.injEq] at hmem
      rw [hmem.1, hbegin] at hk
      cases hk
    | terminal hbegin hfinalize =>
      rcases List.mem_cons.mp hmem with hmem | hmem
      · rw [Prod.mk.injEq] at hmem
        rw [hmem.1, hbegin] at hk
        cases hk
      · rw [List.mem_singleton, Prod.mk.injEq] at hmem
        rw [hmem.1]
        rfl
  exact Option.some.inj ((hone hi hmem).symm.trans (hone hj hmem'))

/-- The file at the record path is the last document, complete. -/
theorem History.record_eq {published : List (ℕ × ControlledBuildExecutionRecordV1)}
    {record : Option StoredFile} (h : History calls id published record) :
    record = published.getLast?.map fun entry => ⟨some entry.2, true⟩ := by
  cases h <;> rfl

end Lifecycle

/-- **The life of a record.** In every pool of a run of begins and finalizes of one
execution, whatever fails and whichever processes end: the documents published so far are
none, one running document, or that document and one terminal document with its identity;
the record path has the last of them, complete, or nothing; what was published stays so;
and at most one begin and one finalize have succeeded. -/
theorem record_lifecycle (stateRoot id : JsString) (calls : ℕ → RecordCall)
    (envs : ℕ → Environment) (home : ℕ → ℤ) (s : StateRoot)
    (hfresh : s.executions id = ⟨none, none, fun _ => none, []⟩)
    (pool : Pool ℕ StateRoot Label StoreFailure StoredExecutionRecord)
    (hrun : (record_system stateRoot id calls envs home).Run System.AnyStep s pool) :
    History calls id (pool.shared.executions id).published (pool.shared.executions id).record ∧
    (pool.shared.executions id).record =
      (pool.shared.executions id).published.getLast?.map (fun entry => ⟨some entry.2, true⟩) ∧
    (∀ pool', Relation.ReflTransGen ((record_system stateRoot id calls envs home).Move
        System.AnyStep) pool pool' →
      (pool.shared.executions id).published <+: (pool'.shared.executions id).published) ∧
    (∀ i j input input' stored stored', calls i = .begin input → calls j = .begin input' →
      pool.threads i = some (.done stored) → pool.threads j = some (.done stored') → i = j) ∧
    ∀ i j status status' finishedAt finishedAt' outcome outcome' stored stored',
      calls i = .finalize status finishedAt outcome →
      calls j = .finalize status' finishedAt' outcome' →
      pool.threads i = some (.done stored) → pool.threads j = some (.done stored') → i = j := by
  have hrecorded := (run_recorded hfresh hrun).1
  refine ⟨hrecorded, hrecorded.record_eq, fun pool' hlater => published_grows hfresh hrun hlater,
    ?_, ?_⟩
  · intro i j input input' stored stored' hi hj hdone hdone'
    exact hrecorded.begin_unique hi hj (result_published hfresh hrun hdone)
      (result_published hfresh hrun hdone')
  · intro i j status status' finishedAt finishedAt' outcome outcome' stored stored' hi hj hdone hdone'
    exact hrecorded.finalize_unique hi hj (result_published hfresh hrun hdone)
      (result_published hfresh hrun hdone')

/-! ## A begin and a finalize -/

/-- An execution id. -/
def sample_id : JsString := js "00000000-0000-4000-8000-000000000000"

/-- A digest in hexadecimal. -/
def sample_sha : JsString := List.replicate 64 0x61

def sample_identity : ExecutionIdentity where
  executionId := sample_id
  projectId := project_id (js "/p")
  projectPath := js "/p"
  target := js "Main"
  imageId := sample_sha
  bindingSha256 := sample_sha
  attestationSha256 := sample_sha
  profileSha256 := some sample_sha
  reusePolicySha256 := none
  dependencyArtifactBefore := sample_sha
  buildLockKey := some (build_lock_key (project_id (js "/p")) sample_sha)
  coordinatorPid := some 7
  projectProtectedBefore := some sample_sha
  projectProtectedRecordCount := some 0
  startedAt := js "2026-01-01T00:00:00.000Z"

/-- A failed execution. -/
def sample_outcome : ControlledBuildExecutionOutcomeV1 where
  buildExecution := .failed
  lakeExitCode := none
  projectProtectedRecordsStable := none
  dependencyArtifactAfter := none
  dependencyArtifactCount := none
  bindingStable := none
  attestationStable := none
  inspectionStable := none
  terminationReason := none
  triggerSignal := none
  processGroupId := none
  terminationEscalated := none
  processGroupReaped := none
  reuseEvidence := none
  failureStage := some .sandbox_execution
  failureMessage := none
  reusedFromExecutionId := none

/-- Nothing fails, and every text is a date. -/
def quiet_environment : Environment where
  call := 0
  faults := fun _ _ => none
  date_parse := fun _ => some 0
  node_message := fun _ => []

/-- A state root with nothing in it. -/
def fresh_root : StateRoot where
  executions_directory := false
  executions := fun _ => ⟨none, none, fun _ => none, []⟩
  build_locks_directory := false
  build_locks := fun _ => none
  gone := fun _ => false
  releasing := fun _ => none
  holding := fun _ => none

/-- The first call begins, the others finalize. -/
def sample_calls : ℕ → RecordCall
  | 0 => .begin sample_identity
  | _ + 1 => .finalize .failed (js "2026-01-01T00:00:01.000Z") sample_outcome

def sample_record_system : System ℕ ℤ StateRoot Label StoreFailure StoredExecutionRecord :=
  record_system [] sample_id sample_calls (fun _ => quiet_environment) fun _ => 7

/-- The first call, and the second after it. -/
theorem sample_calls_succeed :
    ((sample_record_system.program 0).run fresh_root).1.isOk = true ∧
    ((sample_record_system.program 1).run
      ((sample_record_system.program 0).run fresh_root).2).1.isOk = true := by
  decide +kernel

/-- A run in which both calls succeed. -/
theorem sample_record_run : ∃ pool stored stored',
    sample_record_system.Run System.AnyStep fresh_root pool ∧
    pool.threads 0 = some (.done stored) ∧ pool.threads 1 = some (.done stored') := by
  obtain ⟨hfirst, hsecond⟩ := sample_calls_succeed
  obtain ⟨stored, hstored⟩ := exists_of_isOk hfirst
  obtain ⟨stored', hstored'⟩ := exists_of_isOk hsecond
  obtain ⟨pool, hrun, -, hone, htwo⟩ := System.run_two (i := 0) (j := 1) (by decide)
    (Prog.run_eq_of_ok hstored) (Prog.run_eq_of_ok hstored')
  exact ⟨pool, stored, stored', hrun, hone, htwo⟩

theorem record_lifecycle_sample : ∃ pool stored stored',
    sample_record_system.Run System.AnyStep fresh_root pool ∧
    pool.threads 0 = some (.done stored) ∧ pool.threads 1 = some (.done stored') ∧
    History sample_calls sample_id (pool.shared.executions sample_id).published
      (pool.shared.executions sample_id).record := by
  obtain ⟨pool, stored, stored', hrun, hfirst, hsecond⟩ := sample_record_run
  have hlife := record_lifecycle [] sample_id sample_calls (fun _ => quiet_environment) (fun _ => 7)
    fresh_root rfl pool hrun
  exact ⟨pool, stored, stored', hrun, hfirst, hsecond, hlife.1⟩

end LeanBun.Execution
