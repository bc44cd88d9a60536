/-
What the record store writes.

Whatever else a system does, the record store keeps the build locks and writes documents
that come from the documents it is given and the ones it has read. So a property of
documents that a terminal document has with its running one is kept by every function of
the store, under any reliance and any guarantee that such steps meet.
-/
import LeanBun.Execution.Rules

set_option autoImplicit false

namespace LeanBun.Execution

open LeanBun.Lib

/-- The locks, the processes and the bookkeeping are the same. -/
def SameLocks (s s' : StateRoot) : Prop :=
  s'.build_locks = s.build_locks ∧ s'.gone = s.gone ∧ s'.holding = s.holding ∧
    s'.releasing = s.releasing

/-- The documents of the records, and of the temporary files, are as they are named. -/
structure WellNamed (Names : JsString → ControlledBuildExecutionRecordV1 → Prop)
    (s : StateRoot) : Prop where
  records : ∀ id file, (s.executions id).record = some file → ∀ d ∈ file.document, Names id d
  temporaries : ∀ id j file, (s.executions id).temporaries j = some file →
    ∀ d ∈ file.document, Names id d

theorem WellNamed.of_executions {Names : JsString → ControlledBuildExecutionRecordV1 → Prop}
    {s s' : StateRoot} (h : WellNamed Names s) (hsame : s'.executions = s.executions) :
    WellNamed Names s' where
  records := by
    rw [hsame]
    exact h.records
  temporaries := by
    rw [hsame]
    exact h.temporaries

/-- What a system asks of the steps of the record store. -/
structure StoreRules (A : Label → StateRoot → Prop) (G : Label → StateRoot → StateRoot → Prop)
    (Names : JsString → ControlledBuildExecutionRecordV1 → Prop) : Prop where
  named : ∀ s, A .quiet s → WellNamed Names s
  guarantee : ∀ s s', A .quiet s → SameLocks s s' → WellNamed Names s' → G .quiet s s'

/-- The same, of names that a record keeps when it is finished. -/
structure RecordRules (A : Label → StateRoot → Prop) (G : Label → StateRoot → StateRoot → Prop)
    (Names : JsString → ControlledBuildExecutionRecordV1 → Prop) : Prop where
  named : ∀ s, A .quiet s → WellNamed Names s
  guarantee : ∀ s s', A .quiet s → SameLocks s s' → WellNamed Names s' → G .quiet s s'
  finished : ∀ id (d : ControlledBuildExecutionRecordV1) status finishedAt outcome, Names id d →
    Names id (d.finished status finishedAt outcome)

theorem RecordRules.store {A : Label → StateRoot → Prop} {G : Label → StateRoot → StateRoot → Prop}
    {Names : JsString → ControlledBuildExecutionRecordV1 → Prop} (rules : RecordRules A G Names) :
    StoreRules A G Names := ⟨rules.named, rules.guarantee⟩

/-- An assertion about locks that the others leave true. -/
structure StoreAssertion (R : StateRoot → StateRoot → Prop) (K : StateRoot → Prop) : Prop where
  stable : Prog.Stable R K
  locks_only : ∀ s s', SameLocks s s' → K s → K s'

section Records

variable {A : Label → StateRoot → Prop} {R : StateRoot → StateRoot → Prop}
  {G : Label → StateRoot → StateRoot → Prop}
  {Names : JsString → ControlledBuildExecutionRecordV1 → Prop} {K : StateRoot → Prop} {α : Type}
  {env : Environment}

theorem StoreAssertion.and_fact (h : StoreAssertion R K) (p : Prop) :
    StoreAssertion R fun s => K s ∧ p :=
  ⟨fun s s' hrely hs => ⟨h.stable s s' hrely hs.1, hs.2⟩,
    fun s s' hsame hs => ⟨h.locks_only s s' hsame hs.1, hs.2⟩⟩

/-! ## Steps -/

/-- An operation of the store, with what its result says. -/
theorem does_store {op : Operation} {f : StateRoot → Except StoreFailure α × StateRoot}
    (hK : StoreAssertion R K) {F : α → Prop}
    (hstep : ∀ s, A .quiet s → G .quiet s (f s).2 ∧ SameLocks s (f s).2)
    (hresult : ∀ s a, A .quiet s → (f s).1 = .ok a → F a) :
    Prog.Does A R G K (env.perform op f) (fun a s => K s ∧ F a) fun _ => K := by
  refine does_perform hK.stable (fun a => (hK.and_fact (F a)).stable) (fun _ => hK.stable)
    (fun _ _ hs => hs) fun s hs hA => ?_
  obtain ⟨hguarantee, hsame⟩ := hstep s hA
  refine ⟨hguarantee, ?_⟩
  cases hf : (f s).1 with
  | ok a => exact ⟨hK.locks_only _ _ hsame hs, hresult s a hA hf⟩
  | error e => exact hK.locks_only _ _ hsame hs

theorem guarantees_none {s : StateRoot} (rules : StoreRules A G Names) (hs : A .quiet s) :
    G .quiet s s ∧ SameLocks s s :=
  ⟨rules.guarantee s s hs ⟨rfl, rfl, rfl, rfl⟩ (rules.named s hs), rfl, rfl, rfl, rfl⟩

/-- A look at the state. -/
theorem does_look_at {op : Operation} {f : StateRoot → Except StoreFailure α}
    (rules : StoreRules A G Names) (hK : StoreAssertion R K) {F : α → Prop}
    (hresult : ∀ s a, A .quiet s → f s = .ok a → F a) :
    Prog.Does A R G K (env.inspect op f) (fun a s => K s ∧ F a) fun _ => K :=
  does_store hK (fun _ hs => guarantees_none rules hs) hresult

theorem does_look_only {op : Operation} {f : StateRoot → Except StoreFailure α}
    (rules : StoreRules A G Names) (hK : StoreAssertion R K) :
    Prog.Does A R G K (env.inspect op f) (fun _ => K) fun _ => K :=
  (does_look_at rules hK (F := fun _ => True) fun _ _ _ _ => trivial).weaken (fun _ hs => hs)
    (fun _ _ hs => hs.1) fun _ _ hs => hs

/-- An operation whose result does not matter. -/
theorem does_store_only {op : Operation} {f : StateRoot → Except StoreFailure α × StateRoot}
    (hK : StoreAssertion R K)
    (hstep : ∀ s, A .quiet s → G .quiet s (f s).2 ∧ SameLocks s (f s).2) :
    Prog.Does A R G K (env.perform op f) (fun _ => K) fun _ => K :=
  (does_store hK (F := fun _ => True) hstep fun _ _ _ _ => trivial).weaken (fun _ hs => hs)
    (fun _ _ hs => hs.1) fun _ _ hs => hs

/-- A change of the files of one execution. -/
theorem guarantees_files {s : StateRoot} {id : JsString} {f : ExecutionFiles → ExecutionFiles}
    (rules : StoreRules A G Names) (hs : A .quiet s)
    (hrecord : ∀ file, (f (s.executions id)).record = some file →
      ∀ d ∈ file.document, Names id d)
    (htemporary : ∀ j file, (f (s.executions id)).temporaries j = some file →
      ∀ d ∈ file.document, Names id d) :
    G .quiet s (s.at_execution id f) ∧ SameLocks s (s.at_execution id f) := by
  refine ⟨rules.guarantee _ _ hs ⟨rfl, rfl, rfl, rfl⟩ ⟨?_, ?_⟩, rfl, rfl, rfl, rfl⟩
  · intro other file hfile
    by_cases hother : other = id
    · subst hother
      rw [StateRoot.at_execution_self] at hfile
      exact hrecord file hfile
    · rw [StateRoot.at_execution_other s hother] at hfile
      exact (rules.named _ hs).records _ file hfile
  · intro other j file hfile
    by_cases hother : other = id
    · subst hother
      rw [StateRoot.at_execution_self] at hfile
      exact htemporary j file hfile
    · rw [StateRoot.at_execution_other s hother] at hfile
      exact (rules.named _ hs).temporaries _ j file hfile

/-- The temporary files after one of them has got a document that is well named. -/
theorem temporaries_updated {s : StateRoot} {id : JsString} {k : ℕ} {file : Option StoredFile}
    (rules : StoreRules A G Names) (hs : A .quiet s)
    (hfile : ∀ f, file = some f → ∀ d ∈ f.document, Names id d) (j : ℕ)
    (f : StoredFile) (hf : Function.update (s.executions id).temporaries k file j = some f) :
    ∀ d ∈ f.document, Names id d := by
  by_cases hj : j = k
  · subst hj
    rw [Function.update_self] at hf
    exact hfile f hf
  · rw [Function.update_of_ne hj] at hf
    exact (rules.named _ hs).temporaries id j f hf

theorem does_prepare_executions {stateRoot : JsString} {create : Bool}
    (rules : StoreRules A G Names) (hK : StoreAssertion R K) :
    Prog.Does A R G K (prepareExecutionDirectory env stateRoot create) (fun _ => K) fun _ => K := by
  unfold prepareExecutionDirectory make_executions_directory
  refine Prog.Does.bind (M := fun _ => K) ?_ fun created => (does_look_only rules hK).bind fun _ => ?_
  · by_cases hcreate : create = true
    · rw [if_pos hcreate]
      exact does_store_only hK fun s hs =>
        ⟨rules.guarantee _ _ hs ⟨rfl, rfl, rfl, rfl⟩ ((rules.named s hs).of_executions rfl), rfl,
          rfl, rfl, rfl⟩
    · rw [if_neg hcreate]
      exact Prog.does_pure hK.stable fun _ hs => hs
  · by_cases hcreated : created = true
    · rw [if_pos hcreated]
      exact does_look_only rules hK
    · rw [if_neg hcreated]
      exact Prog.does_pure hK.stable fun _ hs => hs

/-- A record that is read is well named. -/
theorem does_read_record {stateRoot id : JsString} (rules : StoreRules A G Names) (hK : StoreAssertion R K) :
    Prog.Does A R G K (readRecord env stateRoot id)
      (fun d s => K s ∧ Names id d) fun _ => K := by
  unfold readRecord inspect_record read_record
  refine (does_look_only rules hK).bind fun _ => does_look_at rules hK fun s d hs hread => ?_
  cases hfile : (s.executions id).record with
  | none =>
    rw [hfile] at hread
    cases hread
  | some file =>
    rw [hfile, Option.bind_some] at hread
    cases hdocument : file.document with
    | none =>
      rw [hdocument] at hread
      cases hread
    | some document =>
      rw [hdocument] at hread
      dsimp only at hread
      by_cases hvalid : valid_record env.date_parse document = true
      · rw [if_pos hvalid, Except.ok.injEq] at hread
        rw [← hread]
        exact (rules.named _ hs).records id file hfile document hdocument
      · rw [if_neg hvalid] at hread
        cases hread

theorem does_verified_record {stateRoot id : JsString} {d : ControlledBuildExecutionRecordV1}
    (rules : StoreRules A G Names) (hK : StoreAssertion R K) :
    Prog.Does A R G K (verifiedStoredRecord env stateRoot id d)
      (fun stored s => K s ∧ Names id stored.document) fun _ => K := by
  unfold verifiedStoredRecord
  refine (does_read_record rules hK).bind fun read => ?_
  have hread := hK.and_fact (Names id read)
  by_cases hsame : read = d
  · rw [if_neg (not_not.mpr hsame)]
    refine Prog.Does.bind (M := fun _ s => K s ∧ Names id read) ?_ fun _ => ?_
    · exact (does_look_only rules hread).weaken (fun _ hs => hs) (fun _ _ hs => hs) fun _ _ hs => hs.1
    · exact Prog.does_pure hread.stable fun s hs => ⟨hs.1, by rw [← hsame]; exact hs.2⟩
  · rw [if_pos hsame]
    exact Prog.does_fail hread.stable fun _ hs => hs.1

theorem does_load_record {stateRoot id : JsString} (rules : StoreRules A G Names) (hK : StoreAssertion R K) :
    Prog.Does A R G K (loadExecutionRecord env stateRoot id)
      (fun stored s => K s ∧ Names id stored.document) fun _ => K := by
  unfold loadExecutionRecord
  by_cases hid : (!execution_id_pattern id) = true
  · rw [if_pos hid]
    exact Prog.does_fail hK.stable fun _ hs => hs
  · rw [if_neg hid]
    refine (does_prepare_executions rules hK).bind fun _ => Prog.Does.bind
      (Prog.does_map_error (does_read_record rules hK)) fun d => ?_
    exact (does_verified_record rules hK).weaken (fun _ hs => hs.1) (fun _ _ hs => hs) fun _ _ hs => hs

/-! ## Writing records -/

/-- A change of the temporary file of a call. -/
theorem does_set_temporary {op : Operation} {id : JsString} {file : Option StoredFile}
    (rules : StoreRules A G Names) (hK : StoreAssertion R K)
    (hfile : ∀ f, file = some f → ∀ d ∈ f.document, Names id d) :
    Prog.Does A R G K (env.change op (set_temporary env id file)) (fun _ => K) fun _ => K := by
  unfold set_temporary
  refine does_store_only hK fun s hs => ?_
  dsimp only
  refine guarantees_files rules hs ?_ ?_
  · exact (rules.named _ hs).records id
  · exact temporaries_updated rules hs hfile

theorem does_rename_record {id : JsString} {d : ControlledBuildExecutionRecordV1}
    (rules : StoreRules A G Names) (hK : StoreAssertion R K) :
    Prog.Does A R G K (rename_temporary env id d) (fun _ => K) fun _ => K := by
  unfold rename_temporary
  refine does_store_only hK fun s hs => ?_
  cases htemporary : (s.executions id).temporaries env.call with
  | none => exact guarantees_none rules hs
  | some file =>
    dsimp only
    refine guarantees_files rules hs ?_ ?_
    · -- what was the temporary file is the record
      intro f hf
      rw [← Option.some.inj hf]
      exact (rules.named _ hs).temporaries _ _ file htemporary
    · exact temporaries_updated rules hs fun f hf => absurd hf (Option.some_ne_none f).symm

theorem does_stage_record {id : JsString} {d : ControlledBuildExecutionRecordV1}
    (rules : StoreRules A G Names) (hK : StoreAssertion R K) (hd : Names id d) :
    Prog.Does A R G K (stage env id d) (fun _ => K) fun _ => K := by
  unfold stage
  have hnames : ∀ read_only f, some (⟨some d, read_only⟩ : StoredFile) = some f →
      ∀ d' ∈ f.document, Names id d' := by
    intro read_only f hf d' hd'
    cases hf
    cases hd'
    exact hd
  refine Prog.Does.bind (M := fun _ => K) ?_ fun _ =>
    (does_set_temporary rules hK (hnames false)).bind fun _ => (does_look_only rules hK).bind fun _ =>
    (does_set_temporary rules hK (hnames true)).bind fun _ => (does_look_only rules hK).bind fun _ =>
    does_rename_record rules hK
  refine does_store_only hK fun s hs => ?_
  cases htemporary : (s.executions id).temporaries env.call with
  | some file => exact guarantees_none rules hs
  | none =>
    unfold set_temporary
    dsimp only
    refine guarantees_files rules hs ?_ ?_
    · exact (rules.named _ hs).records id
    · -- the file is empty when it is created
      refine temporaries_updated rules hs fun f hf d' hd' => ?_
      cases hf
      cases hd'

theorem does_open_record_lock {id busy : JsString} (rules : StoreRules A G Names) (hK : StoreAssertion R K) :
    Prog.Does A R G K (open_lock env id busy) (fun _ => K) fun _ => K := by
  unfold open_lock
  refine does_store_only hK fun s hs => ?_
  cases hlock : (s.executions id).lock with
  | some other => exact guarantees_none rules hs
  | none =>
    dsimp only
    refine guarantees_files rules hs ?_ ?_
    · exact (rules.named _ hs).records id
    · exact (rules.named _ hs).temporaries id

theorem does_unlink_record_lock {id : JsString} (rules : StoreRules A G Names) (hK : StoreAssertion R K) :
    Prog.Does A R G K (ignore (unlink_lock env id)) (fun _ => K) fun _ => K := by
  refine does_ignore hK.stable (does_store_only hK fun s hs => ?_)
  dsimp only
  refine guarantees_files rules hs ?_ ?_
  · exact (rules.named _ hs).records id
  · exact (rules.named _ hs).temporaries id

/-- A transition to a record that is well named. -/
theorem does_record_transition {stateRoot id busy : JsString} {on_exists : StoreCode}
    {prepare : StoreProg ControlledBuildExecutionRecordV1} (rules : StoreRules A G Names) (hK : StoreAssertion R K)
    (hprepare : Prog.Does A R G K prepare (fun d s => K s ∧ Names id d)
      fun _ => K) :
    Prog.Does A R G K (transition env stateRoot id busy on_exists prepare)
      (fun stored s => K s ∧ Names id stored.document) fun _ => K := by
  have hfact := fun d => hK.and_fact (Names id d)
  have hclean : Prog.Does A R G K (ignore (unlink_temporary env id)) (fun _ => K) fun _ => K :=
    does_ignore hK.stable (does_set_temporary rules hK fun _ hf => (by cases hf))
  refine does_transition_of hK.stable (fun d => (hfact d).stable) (fun d => (hfact d).stable)
    (does_open_record_lock rules hK) hprepare ?_ ?_ ?_ hclean hclean
    (does_unlink_record_lock rules hK) fun d => ?_
  · exact fun d => Prog.does_of_fact fun hd => (does_stage_record rules (hfact d) hd).weaken
      (fun _ hs => ⟨hs, hd⟩) (fun _ _ hs => hs) fun _ _ hs => hs.1
  · exact fun d => (does_look_only rules (hfact d)).weaken (fun _ hs => hs) (fun _ _ hs => hs)
      fun _ _ hs => hs.1
  · exact fun d => (does_verified_record rules hK).weaken (fun _ hs => hs.1) (fun _ _ hs => hs)
      fun _ _ hs => hs
  · exact (does_unlink_record_lock rules (hfact d)).weaken (fun _ hs => hs) (fun _ _ hs => hs)
      fun _ _ hs => hs.1

theorem does_begin_record {stateRoot : JsString} {input : ExecutionIdentity}
    (rules : StoreRules A G Names) (hK : StoreAssertion R K) (hnames : Names input.executionId input.started) :
    Prog.Does A R G K (beginExecutionRecord env stateRoot input)
      (fun stored s => K s ∧ Names input.executionId stored.document) fun _ => K := by
  unfold beginExecutionRecord
  by_cases hvalid : (!valid_begin_input input) = true
  · rw [if_pos hvalid]
    exact Prog.does_fail hK.stable fun _ hs => hs
  · rw [if_neg hvalid]
    refine (does_prepare_executions rules hK).bind fun _ => does_record_transition rules hK ?_
    unfold prepare_begin
    refine does_look_at rules hK fun s d _ hd => ?_
    cases hrecord : (s.executions input.executionId).record with
    | some file =>
      rw [hrecord] at hd
      cases hd
    | none =>
      rw [hrecord] at hd
      cases hd
      exact hnames

/-- A record is finished with a document that is well named. -/
theorem does_finalize_named {stateRoot id finishedAt : JsString} {status : TerminalStatus}
    {outcome : ControlledBuildExecutionOutcomeV1} (rules : StoreRules A G Names) (hK : StoreAssertion R K)
    (hfinished : ∀ d : ControlledBuildExecutionRecordV1, Names id d → d.executionId = id →
      d.status = .running → Names id (d.finished status finishedAt outcome)) :
    Prog.Does A R G K (finalizeExecutionRecord env stateRoot id status finishedAt outcome)
      (fun stored s => K s ∧ Names id stored.document) fun _ => K := by
  unfold finalizeExecutionRecord
  by_cases hvalid : (!execution_id_pattern id || decide (outcome.buildExecution ≠ status)) = true
  · rw [if_pos hvalid]
    exact Prog.does_fail hK.stable fun _ hs => hs
  · rw [if_neg hvalid]
    refine (does_prepare_executions rules hK).bind fun _ => does_record_transition rules hK ?_
    unfold prepare_finalize
    refine (does_read_record rules hK).bind fun running => ?_
    have hrunning := hK.and_fact (Names id running)
    by_cases hstate : running.executionId ≠ id ∨ running.status ≠ .running ∨ running.outcome ≠ none
    · rw [if_pos hstate]
      exact Prog.does_fail hrunning.stable fun _ hs => hs.1
    · rw [if_neg hstate]
      rw [not_or, not_or, not_not, not_not] at hstate
      exact Prog.does_pure hrunning.stable fun _ hs =>
        ⟨hs.1, hfinished running hs.2 hstate.1 hstate.2.1⟩

theorem does_finalize_record {stateRoot id finishedAt : JsString} {status : TerminalStatus}
    {outcome : ControlledBuildExecutionOutcomeV1} (rules : RecordRules A G Names) (hK : StoreAssertion R K) :
    Prog.Does A R G K (finalizeExecutionRecord env stateRoot id status finishedAt outcome)
      (fun stored s => K s ∧ Names id stored.document) fun _ => K :=
  does_finalize_named rules.store hK fun d h _ _ => rules.finished id d status finishedAt outcome h

end Records

end LeanBun.Execution
