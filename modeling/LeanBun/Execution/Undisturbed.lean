/-
Store functions that nothing disturbs.

Where no operation fails and nobody else is at work, the files decide what a function of
the store does. A record or a lock is loaded when its file is complete, bounded, valid and
read-only, and a load leaves the state as it is. A transition whose lock file is free
publishes its document; one that finds a lock file gives up.
-/
import LeanBun.Execution.Recover

set_option autoImplicit false

namespace LeanBun.Execution

open LeanBun.Lib LeanBun.Core

/-- No operation fails. -/
def Environment.Quiet (env : Environment) : Prop := ∀ path op, env.faults path op = none

theorem Environment.Quiet.part {env : Environment} (h : env.Quiet) (k : ℕ) : (env.part k).Quiet :=
  fun path op => h (k :: path) op

section Undisturbed

variable {env : Environment} {α : Type} {s : StateRoot}

/-! ## Operations -/

theorem run_perform_labelled (henv : env.Quiet) (op : Operation) (label : StateRoot → Label)
    (f : StateRoot → Except StoreFailure α × StateRoot) (s : StateRoot) :
    (env.perform_labelled op label f).run s = f s := by
  unfold Environment.perform_labelled
  rw [henv]
  exact Prog.run_atomic label f s

theorem run_perform (henv : env.Quiet) (op : Operation)
    (f : StateRoot → Except StoreFailure α × StateRoot) (s : StateRoot) :
    (env.perform op f).run s = f s := run_perform_labelled henv op _ f s

theorem run_inspect (henv : env.Quiet) (op : Operation) (f : StateRoot → Except StoreFailure α)
    (s : StateRoot) : (env.inspect op f).run s = (f s, s) := run_perform henv op _ s

theorem run_change (henv : env.Quiet) (op : Operation) (f : StateRoot → StateRoot)
    (s : StateRoot) : (env.change op f).run s = (.ok (), f s) := run_perform henv op _ s

theorem run_ignore (p : StoreProg Unit) (s : StateRoot) :
    (ignore p).run s = (.ok (), (p.run s).2) :=
  Prog.run_bind_ok (Prog.run_attempt p s)

/-- An operation with what comes after it. -/
theorem run_perform_bind {β : Type} (henv : env.Quiet) (op : Operation)
    (f : StateRoot → Except StoreFailure β × StateRoot) (g : β → StoreProg α) (s : StateRoot) :
    (env.perform op f >>= g).run s = match f s with
      | (.ok b, t) => (g b).run t
      | (.error e, t) => (.error e, t) := by
  have hrun := run_perform henv op f s
  rcases hf : f s with ⟨result, t⟩
  rw [hf] at hrun
  cases result with
  | ok b => exact Prog.run_bind_ok hrun
  | error e => exact Prog.run_bind_error hrun

theorem run_inspect_bind {β : Type} (henv : env.Quiet) (op : Operation)
    (f : StateRoot → Except StoreFailure β) (g : β → StoreProg α) (s : StateRoot) :
    (env.inspect op f >>= g).run s = match f s with
      | .ok b => (g b).run s
      | .error e => (.error e, s) := by
  unfold Environment.inspect
  rw [run_perform_bind henv]
  cases f s <;> rfl

theorem run_change_bind (henv : env.Quiet) (op : Operation) (f : StateRoot → StateRoot)
    (g : Unit → StoreProg α) (s : StateRoot) :
    (env.change op f >>= g).run s = (g ()).run (f s) := run_perform_bind henv op _ g s

/-! ## Reading a record -/

/-- `mkdir` with `recursive` of a directory that is there. -/
theorem with_executions_directory (h : s.executions_directory = true) :
    { s with executions_directory := true } = s := by
  cases s
  cases h
  rfl

theorem run_prepare_executions (henv : env.Quiet) (stateRoot : JsString) :
    (prepareExecutionDirectory env stateRoot true).run s =
      (.ok (), { s with executions_directory := true }) := by
  unfold prepareExecutionDirectory make_executions_directory
  rw [if_pos rfl, run_perform_bind henv]
  dsimp only
  rw [run_inspect_bind henv]
  dsimp only
  rw [if_pos rfl]
  dsimp only
  by_cases hcreated : (!s.executions_directory) = true
  · rw [if_pos hcreated, run_inspect henv]
  · rw [if_neg hcreated]
    rfl

theorem run_find_executions (henv : env.Quiet) (stateRoot : JsString) :
    (prepareExecutionDirectory env stateRoot false).run s =
      (if s.executions_directory then .ok ()
        else .error (.store .CONFLICT
          (js "execution record store does not exist: " ++ executions_path stateRoot)), s) := by
  unfold prepareExecutionDirectory make_executions_directory
  rw [if_neg Bool.false_ne_true]
  show (env.inspect .inspect_directory _ >>= _).run s = _
  rw [run_inspect_bind henv]
  by_cases hdirectory : s.executions_directory = true
  · rw [if_pos hdirectory, if_pos hdirectory]
    rfl
  · rw [if_neg hdirectory, if_neg hdirectory, if_neg Bool.false_ne_true]

/-- A record file that `readRecord` accepts. -/
structure ReadableRecord (date_parse : JsString → Option ℤ) (file : StoredFile)
    (d : ControlledBuildExecutionRecordV1) : Prop where
  document : file.document = some d
  bounded : byte_len file.text ≤ 64 * 1024
  valid : valid_record date_parse d = true

/-- The record of an execution is one that `readRecord` accepts. -/
def RecordReads (date_parse : JsString → Option ℤ) (s : StateRoot) (id : JsString)
    (d : ControlledBuildExecutionRecordV1) : Prop :=
  ∃ file, (s.executions id).record = some file ∧ ReadableRecord date_parse file d

/-- **Reading.** A record is read when it is readable, and nothing changes. -/
theorem run_read_record (henv : env.Quiet) (stateRoot id : JsString) :
    (∃ d, RecordReads env.date_parse s id d ∧ (readRecord env stateRoot id).run s = (.ok d, s)) ∨
      (∀ d, ¬RecordReads env.date_parse s id d) ∧
        ∃ e, (readRecord env stateRoot id).run s = (.error e, s) := by
  unfold readRecord inspect_record read_record
  rw [run_inspect_bind henv]
  cases hfile : (s.executions id).record with
  | none =>
    refine Or.inr ⟨?_, _, rfl⟩
    rintro d ⟨file, hat, -⟩
    rw [hfile] at hat
    cases hat
  | some file =>
    dsimp only
    -- what is read is this file
    have hthis : ∀ d, RecordReads env.date_parse s id d → ReadableRecord env.date_parse file d := by
      rintro d ⟨other, hat, hreadable⟩
      rw [hfile, Option.some.injEq] at hat
      rw [hat]
      exact hreadable
    by_cases hbound : 64 * 1024 < byte_len file.text
    · rw [if_pos hbound]
      exact Or.inr ⟨fun d hd => absurd (hthis d hd).bounded (not_le.mpr hbound), _, rfl⟩
    · rw [if_neg hbound]
      dsimp only
      rw [run_inspect henv, hfile, Option.bind_some]
      cases hdocument : file.document with
      | none =>
        refine Or.inr ⟨fun d hd => ?_, _, rfl⟩
        rw [(hthis d hd).document] at hdocument
        cases hdocument
      | some document =>
        dsimp only
        by_cases hvalid : valid_record env.date_parse document = true
        · rw [if_pos hvalid]
          exact Or.inl ⟨document, ⟨file, hfile, hdocument, not_lt.mp hbound, hvalid⟩, rfl⟩
        · rw [if_neg hvalid]
          refine Or.inr ⟨fun d hd => hvalid ?_, _, rfl⟩
          have hd' := (hthis d hd).document
          rw [hdocument, Option.some.injEq] at hd'
          rw [hd']
          exact (hthis d hd).valid

theorem RecordReads.unique {date_parse : JsString → Option ℤ} {id : JsString}
    {d d' : ControlledBuildExecutionRecordV1} (h : RecordReads date_parse s id d)
    (h' : RecordReads date_parse s id d') : d = d' := by
  obtain ⟨file, hat, hreadable⟩ := h
  obtain ⟨file', hat', hreadable'⟩ := h'
  rw [hat, Option.some.injEq] at hat'
  subst hat'
  rw [← Option.some.injEq, ← hreadable.document, hreadable'.document]

theorem run_read_ok (henv : env.Quiet) {stateRoot id : JsString} {d : ControlledBuildExecutionRecordV1}
    (h : RecordReads env.date_parse s id d) : (readRecord env stateRoot id).run s = (.ok d, s) := by
  rcases run_read_record (s := s) henv stateRoot id with
    ⟨d', hreads, hrun⟩ | ⟨hnot, -⟩
  · rw [hrun, h.unique hreads]
  · exact absurd h (hnot d)

/-- The record of an execution is one that `verifiedStoredRecord` accepts. -/
def RecordStored (date_parse : JsString → Option ℤ) (s : StateRoot) (id : JsString)
    (d : ControlledBuildExecutionRecordV1) : Prop :=
  ∃ file, (s.executions id).record = some file ∧ ReadableRecord date_parse file d ∧
    file.read_only = true

theorem RecordStored.reads {date_parse : JsString → Option ℤ} {id : JsString}
    {d : ControlledBuildExecutionRecordV1} (h : RecordStored date_parse s id d) :
    RecordReads date_parse s id d := by
  obtain ⟨file, hfile, hreadable, -⟩ := h
  exact ⟨file, hfile, hreadable⟩

/-- `StoredExecutionRecord` of a document. -/
def stored_record (stateRoot id : JsString) (d : ControlledBuildExecutionRecordV1) :
    StoredExecutionRecord := ⟨record_path stateRoot id, hash_text d.canonical_text, d⟩

theorem run_verified_record (henv : env.Quiet) (stateRoot id : JsString)
    (d : ControlledBuildExecutionRecordV1) :
    (RecordStored env.date_parse s id d ∧
        (verifiedStoredRecord env stateRoot id d).run s = (.ok (stored_record stateRoot id d), s)) ∨
      ¬RecordStored env.date_parse s id d ∧
        ∃ e, (verifiedStoredRecord env stateRoot id d).run s = (.error e, s) := by
  unfold verifiedStoredRecord
  rcases run_read_record (s := s) (henv.part 0) stateRoot id with
    ⟨read, hreads, hrun⟩ | ⟨hnot, e, hrun⟩
  · rw [Prog.run_bind_ok hrun]
    by_cases hsame : read = d
    · subst hsame
      rw [if_neg (not_not.mpr rfl), run_inspect_bind (henv.part 1)]
      obtain ⟨file, hfile, hreadable⟩ := hreads
      rw [hfile]
      dsimp only
      by_cases hmode : file.read_only = true
      · rw [if_pos hmode]
        exact Or.inl ⟨⟨file, hfile, hreadable, hmode⟩, rfl⟩
      · rw [if_neg hmode]
        refine Or.inr ⟨?_, _, rfl⟩
        rintro ⟨other, hat, -, hother⟩
        rw [hfile, Option.some.injEq] at hat
        rw [hat] at hmode
        exact hmode hother
    · rw [if_pos hsame]
      exact Or.inr ⟨fun h => hsame (hreads.unique h.reads), _, rfl⟩
  · rw [Prog.run_bind_error hrun]
    exact Or.inr ⟨fun h => hnot d h.reads, e, rfl⟩

/-- The record of an execution is one that `loadExecutionRecord` returns. -/
def RecordLoads (date_parse : JsString → Option ℤ) (s : StateRoot) (id : JsString)
    (d : ControlledBuildExecutionRecordV1) : Prop :=
  execution_id_pattern id = true ∧ s.executions_directory = true ∧ RecordStored date_parse s id d

theorem RecordLoads.unique {date_parse : JsString → Option ℤ} {id : JsString}
    {d d' : ControlledBuildExecutionRecordV1} (h : RecordLoads date_parse s id d)
    (h' : RecordLoads date_parse s id d') : d = d' := h.2.2.reads.unique h'.2.2.reads

/-- **Loading.** -/
theorem run_load_record (henv : env.Quiet) (stateRoot id : JsString) :
    (∃ d, RecordLoads env.date_parse s id d ∧
        (loadExecutionRecord env stateRoot id).run s = (.ok (stored_record stateRoot id d), s)) ∨
      (∀ d, ¬RecordLoads env.date_parse s id d) ∧
        ∃ e, (loadExecutionRecord env stateRoot id).run s = (.error e, s) := by
  unfold loadExecutionRecord
  by_cases hid : execution_id_pattern id = true
  · rw [if_neg (by rw [hid]; decide)]
    have hfind := run_find_executions (s := s) (henv.part 0) stateRoot
    by_cases hdirectory : s.executions_directory = true
    · rw [if_pos hdirectory] at hfind
      rw [Prog.run_bind_ok hfind]
      have hmap := Prog.run_map_error (readRecord (env.part 1) stateRoot id)
        (missing_record stateRoot id) s
      rcases run_read_record (s := s) (henv.part 1) stateRoot id with
        ⟨d, hreads, hrun⟩ | ⟨hnot, e, hrun⟩
      · rw [hrun] at hmap
        rw [Prog.run_bind_ok hmap]
        rcases run_verified_record (s := s) (henv.part 2) stateRoot id d with
          ⟨hstored, hverified⟩ | ⟨hnot, e, hverified⟩
        · exact Or.inl ⟨d, ⟨hid, hdirectory, hstored⟩, hverified⟩
        · refine Or.inr ⟨fun d' hd' => hnot ?_, e, hverified⟩
          rw [hreads.unique hd'.2.2.reads]
          exact hd'.2.2
      · rw [hrun] at hmap
        rw [Prog.run_bind_error hmap]
        exact Or.inr ⟨fun d hd => hnot d hd.2.2.reads, _, rfl⟩
    · rw [if_neg hdirectory] at hfind
      rw [Prog.run_bind_error hfind]
      exact Or.inr ⟨fun d hd => hdirectory hd.2.1, _, rfl⟩
  · rw [if_pos (by rw [Bool.not_eq_true] at hid; rw [hid]; rfl)]
    exact Or.inr ⟨fun d hd => hid hd.1, _, rfl⟩

/-! ## Reading a lock -/

/-- The lock at a key is one that `loadBuildLock` returns. -/
structure LockLoads (date_parse : JsString → Option ℤ) (s : StateRoot) (key : JsString)
    (d : BuildExecutionLockV1) : Prop where
  pattern : sha_pattern key = true
  directory : s.build_locks_directory = true
  file : ∃ file, s.build_locks key = some file ∧ file.document = some d ∧
    byte_len file.text ≤ 32 * 1024 ∧ valid_lock date_parse d = true ∧ file.read_only = true

theorem LockLoads.unique {date_parse : JsString → Option ℤ} {key : JsString}
    {d d' : BuildExecutionLockV1} (h : LockLoads date_parse s key d)
    (h' : LockLoads date_parse s key d') : d = d' := by
  obtain ⟨file, hat, hdocument, -⟩ := h.file
  obtain ⟨file', hat', hdocument', -⟩ := h'.file
  rw [hat, Option.some.injEq] at hat'
  subst hat'
  rw [← Option.some.injEq, ← hdocument, hdocument']

theorem run_lock_directory (henv : env.Quiet) :
    (executionLockDirectory env false).run s = (.ok s.build_locks_directory, s) := by
  unfold executionLockDirectory make_lock_directory
  rw [if_neg Bool.false_ne_true]
  show (env.inspect .inspect_directory _ >>= _).run s = _
  rw [run_inspect_bind henv]
  cases s.build_locks_directory <;> rfl

/-- **Looking at a lock.** It is loaded, or nothing is found, or what is there cannot be
loaded. -/
theorem run_load_lock (henv : env.Quiet) (stateRoot key : JsString)
    (note : BuildExecutionLockV1 → StateRoot → StateRoot) :
    (∃ d, LockLoads env.date_parse s key d ∧ (loadBuildLock env stateRoot key note).run s =
        (.ok (some ⟨build_lock_path stateRoot key, hash_text d.canonical_text, d⟩), note d s)) ∨
      (∀ d, ¬LockLoads env.date_parse s key d) ∧
        (((s.build_locks_directory = false ∨ s.build_locks key = none) ∧
            (loadBuildLock env stateRoot key note).run s = (.ok none, s)) ∨
          ∃ e, (loadBuildLock env stateRoot key note).run s = (.error e, s)) := by
  unfold loadBuildLock
  by_cases hkey : sha_pattern key = true
  · rw [if_neg (by rw [hkey]; decide), Prog.run_bind_ok (run_lock_directory (henv.part 0))]
    by_cases hdirectory : s.build_locks_directory = true
    · rw [if_neg (by rw [hdirectory]; decide)]
      unfold inspect_lock read_lock
      rw [run_inspect_bind henv]
      cases hfile : s.build_locks key with
      | none =>
        refine Or.inr ⟨fun d hd => ?_, Or.inl ⟨Or.inr rfl, rfl⟩⟩
        obtain ⟨file, hat, -⟩ := hd.file
        rw [hfile] at hat
        cases hat
      | some file =>
        dsimp only
        have hthis : ∀ d, LockLoads env.date_parse s key d → file.document = some d ∧
            byte_len file.text ≤ 32 * 1024 ∧ valid_lock env.date_parse d = true ∧
            file.read_only = true := by
          intro d hd
          obtain ⟨other, hat, hother⟩ := hd.file
          rw [hfile, Option.some.injEq] at hat
          rw [hat]
          exact hother
        by_cases hbound : 32 * 1024 < byte_len file.text
        · rw [if_pos hbound]
          exact Or.inr ⟨fun d hd => absurd (hthis d hd).2.1 (not_le.mpr hbound), Or.inr ⟨_, rfl⟩⟩
        · rw [if_neg hbound]
          dsimp only
          rw [run_perform_bind henv, hfile]
          unfold read_lock_result
          rw [Option.bind_some]
          cases hdocument : file.document with
          | none =>
            refine Or.inr ⟨fun d hd => ?_, Or.inr ⟨_, rfl⟩⟩
            rw [(hthis d hd).1] at hdocument
            cases hdocument
          | some document =>
            dsimp only
            have hsame : ∀ d, LockLoads env.date_parse s key d → document = d := by
              intro d hd
              rw [← Option.some.injEq, ← hdocument, (hthis d hd).1]
            by_cases hvalid : valid_lock env.date_parse document = true
            · rw [if_neg (by rw [hvalid]; decide)]
              by_cases hmode : file.read_only = true
              · rw [if_neg (by rw [hmode]; decide)]
                exact Or.inl ⟨document, ⟨hkey, hdirectory, file, hfile, hdocument,
                  not_lt.mp hbound, hvalid, hmode⟩, rfl⟩
              · rw [if_pos (by rw [Bool.not_eq_true] at hmode; rw [hmode]; rfl)]
                exact Or.inr ⟨fun d hd => hmode (hthis d hd).2.2.2, Or.inr ⟨_, rfl⟩⟩
            · rw [if_pos (by rw [Bool.not_eq_true] at hvalid; rw [hvalid]; rfl)]
              refine Or.inr ⟨fun d hd => hvalid ?_, Or.inr ⟨_, rfl⟩⟩
              rw [hsame d hd]
              exact (hthis d hd).2.2.1
    · rw [if_pos (by rw [Bool.not_eq_true] at hdirectory; rw [hdirectory]; rfl)]
      rw [Bool.not_eq_true] at hdirectory
      refine Or.inr ⟨fun d hd => ?_, Or.inl ⟨Or.inl hdirectory, rfl⟩⟩
      rw [hd.directory] at hdirectory
      cases hdirectory
  · rw [if_pos (by rw [Bool.not_eq_true] at hkey; rw [hkey]; rfl)]
    exact Or.inr ⟨fun d hd => hkey hd.pattern, Or.inr ⟨_, rfl⟩⟩

/-! ## Transitions -/

theorem StateRoot.at_execution_twice (s : StateRoot) (id : JsString)
    (f g : ExecutionFiles → ExecutionFiles) :
    (s.at_execution id f).at_execution id g = s.at_execution id fun files => g (f files) := by
  unfold StateRoot.at_execution
  dsimp only
  rw [Function.update_self, Function.update_idem]

theorem StateRoot.at_execution_same (s : StateRoot) (id : JsString)
    {f : ExecutionFiles → ExecutionFiles} (h : f (s.executions id) = s.executions id) :
    s.at_execution id f = s := by
  unfold StateRoot.at_execution
  rw [h, Function.update_eq_self]

/-- The files of an execution after a transition. -/
def published_files (call : ℕ) (d : ControlledBuildExecutionRecordV1) (files : ExecutionFiles) :
    ExecutionFiles where
  lock := none
  record := some ⟨some d, true⟩
  temporaries := Function.update files.temporaries call none
  published := files.published ++ [(call, d)]

theorem run_stage (henv : env.Quiet) {id : JsString} (d : ControlledBuildExecutionRecordV1)
    (htemporary : (s.executions id).temporaries env.call = none) :
    (stage env id d).run s = (.ok (), s.at_execution id fun files =>
      { published_files env.call d files with lock := files.lock }) := by
  unfold stage set_temporary rename_temporary published_files
  rw [run_perform_bind henv, htemporary]
  dsimp only
  rw [run_change_bind henv, run_inspect_bind henv]
  dsimp only
  rw [run_change_bind henv, run_inspect_bind (henv.part 0)]
  dsimp only
  rw [run_perform henv]
  simp only [StateRoot.at_execution_twice, StateRoot.at_execution_self, Function.update_self,
    Function.update_idem]

/-- **A transition whose lock file is free.** It publishes what it has prepared, and returns
if that can be read back. -/
theorem run_transition (henv : env.Quiet) {stateRoot id busy : JsString} {on_exists : StoreCode}
    {prepare : StoreProg ControlledBuildExecutionRecordV1} {d : ControlledBuildExecutionRecordV1}
    (hlock : (s.executions id).lock = none)
    (htemporary : (s.executions id).temporaries env.call = none)
    (hprepare : prepare.run (s.at_execution id fun files => { files with lock := some env.call }) =
      (.ok d, s.at_execution id fun files => { files with lock := some env.call })) :
    ∃ result, (transition env stateRoot id busy on_exists prepare).run s =
        (result, s.at_execution id (published_files env.call d)) ∧
      (ReadableRecord env.date_parse ⟨some d, true⟩ d →
        result = .ok (stored_record stateRoot id d)) ∧
      (¬ReadableRecord env.date_parse ⟨some d, true⟩ d → ∃ e, result = .error e) := by
  have hopen : (open_lock env id busy).run s =
      (.ok (), s.at_execution id fun files => { files with lock := some env.call }) := by
    unfold open_lock
    rw [run_perform henv, hlock]
  have hstage : (stage (env.part 1) id d).run
      (s.at_execution id fun files => { files with lock := some env.call }) =
      (.ok (), s.at_execution id fun files =>
        { published_files env.call d files with lock := some env.call }) := by
    rw [run_stage (henv.part 1) d (by rw [StateRoot.at_execution_self]; exact htemporary),
      StateRoot.at_execution_twice]
    rfl
  have hunlock : ∀ t : StateRoot, (ignore (unlink_lock env id)).run t =
      (.ok (), t.at_execution id fun files => { files with lock := none }) := by
    intro t
    unfold unlink_lock
    rw [run_ignore, run_change henv]
  have hend : (s.at_execution id fun files =>
      { published_files env.call d files with lock := some env.call }).at_execution id
        (fun files => { files with lock := none }) =
      s.at_execution id (published_files env.call d) := by
    rw [StateRoot.at_execution_twice]
    rfl
  have hstaged : (do
      let document ← prepare
      stage (env.part 1) id document
      return document).run (s.at_execution id fun files => { files with lock := some env.call }) =
      (.ok d, s.at_execution id fun files =>
        { published_files env.call d files with lock := some env.call }) :=
    (Prog.run_bind_ok hprepare).trans (Prog.run_bind_ok hstage)
  unfold transition
  rw [Prog.run_attempt_bind, hopen]
  dsimp only
  rw [Prog.run_attempt_bind, hstaged]
  dsimp only
  rw [Prog.run_attempt_bind, run_inspect_bind henv]
  dsimp only
  rw [Prog.run_bind_ok (hunlock _)]
  rcases run_verified_record (s := s.at_execution id fun files =>
      { published_files env.call d files with lock := some env.call })
      (henv.part 2) stateRoot id d with ⟨hstored, hverified⟩ | ⟨hnot, e, hverified⟩
  · rw [hverified, hend]
    refine ⟨_, rfl, fun _ => rfl, fun hunreadable => absurd ?_ hunreadable⟩
    obtain ⟨file, hfile, hreadable, -⟩ := hstored
    rw [StateRoot.at_execution_self] at hfile
    rw [← Option.some.inj hfile] at hreadable
    exact hreadable
  · rw [hverified, hend]
    refine ⟨_, rfl, fun hreadable => absurd ?_ hnot, fun _ => ⟨_, rfl⟩⟩
    exact ⟨⟨some d, true⟩, by rw [StateRoot.at_execution_self]; rfl, hreadable, rfl⟩

/-- A transition that finds a lock file changes nothing. -/
theorem run_transition_busy (henv : env.Quiet) {stateRoot id busy : JsString} {on_exists : StoreCode}
    {prepare : StoreProg ControlledBuildExecutionRecordV1} {owner : ℕ}
    (hlock : (s.executions id).lock = some owner)
    (htemporary : (s.executions id).temporaries env.call = none) :
    ∃ e, (transition env stateRoot id busy on_exists prepare).run s = (.error e, s) := by
  have hopen : (open_lock env id busy).run s = (.error (.store .BUSY busy), s) := by
    unfold open_lock
    rw [run_perform henv, hlock]
  have hclean : (ignore (unlink_temporary env id)).run s = (.ok (), s) := by
    unfold unlink_temporary set_temporary
    rw [run_ignore, run_change henv, StateRoot.at_execution_same]
    rw [← htemporary, Function.update_eq_self]
  unfold transition
  rw [Prog.run_attempt_bind, hopen]
  dsimp only
  rw [Prog.run_bind_ok hclean]
  exact ⟨_, rfl⟩

theorem running_has_no_outcome {date_parse : JsString → Option ℤ}
    {d : ControlledBuildExecutionRecordV1} (hvalid : valid_record date_parse d = true)
    (hrunning : d.status = .running) : d.outcome = none := by
  unfold valid_record at hvalid
  rw [hrunning, Bool.and_eq_true, Bool.and_eq_true] at hvalid
  exact Option.isNone_iff_eq_none.mp hvalid.2.2

/-- **A finalization whose lock file is free.** -/
theorem run_finalize (henv : env.Quiet) {stateRoot id finishedAt : JsString}
    {status : TerminalStatus} {outcome : ControlledBuildExecutionOutcomeV1}
    {d : ControlledBuildExecutionRecordV1} (houtcome : outcome.buildExecution = status)
    (hloads : RecordLoads env.date_parse s id d) (hid : d.executionId = id)
    (hrunning : d.status = .running) (hlock : (s.executions id).lock = none)
    (htemporary : (s.executions id).temporaries env.call = none) :
    ∃ result, (finalizeExecutionRecord env stateRoot id status finishedAt outcome).run s =
        (result, s.at_execution id
          (published_files env.call (d.finished status finishedAt outcome))) ∧
      (ReadableRecord env.date_parse ⟨some (d.finished status finishedAt outcome), true⟩
          (d.finished status finishedAt outcome) →
        result = .ok (stored_record stateRoot id (d.finished status finishedAt outcome))) ∧
      (¬ReadableRecord env.date_parse ⟨some (d.finished status finishedAt outcome), true⟩
          (d.finished status finishedAt outcome) → ∃ e, result = .error e) := by
  obtain ⟨hpattern, hdirectory, hstored⟩ := hloads
  unfold finalizeExecutionRecord
  rw [if_neg (by rw [hpattern, houtcome]; simp),
    Prog.run_bind_ok (run_prepare_executions (henv.part 0) stateRoot),
    with_executions_directory hdirectory]
  refine run_transition (henv.part 1) hlock htemporary ?_
  -- the record is still the one that was loaded
  have hreads : RecordReads ((env.part 1).part 0).date_parse
      (s.at_execution id fun files => { files with lock := some (env.part 1).call }) id d := by
    obtain ⟨file, hfile, hreadable⟩ := hstored.reads
    exact ⟨file, by rw [StateRoot.at_execution_self]; exact hfile, hreadable⟩
  obtain ⟨file, -, hreadable⟩ := hstored.reads
  unfold prepare_finalize
  rw [Prog.run_bind_ok (run_read_ok ((henv.part 1).part 0) hreads), if_neg]
  · rfl
  · rintro (h | h | h)
    · exact h hid
    · exact h hrunning
    · exact h (running_has_no_outcome hreadable.valid hrunning)

/-- A finalization that finds a lock file changes nothing. -/
theorem run_finalize_busy (henv : env.Quiet) {stateRoot id finishedAt : JsString}
    {status : TerminalStatus} {outcome : ControlledBuildExecutionOutcomeV1} {owner : ℕ}
    (hdirectory : s.executions_directory = true) (hlock : (s.executions id).lock = some owner)
    (htemporary : (s.executions id).temporaries env.call = none) :
    ∃ e, (finalizeExecutionRecord env stateRoot id status finishedAt outcome).run s =
      (.error e, s) := by
  unfold finalizeExecutionRecord
  by_cases hinput : (!execution_id_pattern id || decide (outcome.buildExecution ≠ status)) = true
  · rw [if_pos hinput]
    exact ⟨_, rfl⟩
  · rw [if_neg hinput, Prog.run_bind_ok (run_prepare_executions (henv.part 0) stateRoot),
      with_executions_directory hdirectory]
    exact run_transition_busy (henv.part 1) hlock htemporary

/-! ## Releasing and acquiring -/

/-- **A release of the expected lock.** -/
theorem run_release (henv : env.Quiet) {stateRoot : JsString} {expected : ExpectedLock}
    {d : BuildExecutionLockV1}
    (hkey : expected.key = build_lock_key expected.projectId expected.imageId)
    (hloads : LockLoads env.date_parse s expected.key d) (hmatches : expected.matches_lock d = true) :
    (releaseBuildLock env stateRoot expected).run s = (.ok .released,
      { s.at_lock expected.key none with releasing := Function.update s.releasing env.call none }) := by
  have hload := run_load_lock (s := s) henv stateRoot expected.key (note_release env expected)
  rcases hload with ⟨d', hloads', hrun⟩ | ⟨hnot, -⟩
  · have hd := hloads.unique hloads'
    subst hd
    unfold releaseBuildLock
    rw [if_neg (not_not.mpr hkey), Prog.run_bind_ok hrun]
    dsimp only
    rw [if_neg (by rw [hmatches]; decide)]
    obtain ⟨file, hfile, -⟩ := hloads.file
    have hunlink : (unlink_released env expected).run (note_release env expected d s) = (.ok (),
        { s.at_lock expected.key none with releasing := Function.update s.releasing env.call none }) := by
      unfold unlink_released note_release end_release
      rw [if_pos hmatches, henv]
      dsimp only
      rw [Prog.run_atomic]
      dsimp only
      rw [hfile]
      dsimp only
      unfold StateRoot.at_lock
      rw [Function.update_idem]
    rw [Prog.run_bind_ok hunlink, run_inspect_bind henv]
    rfl
  · exact absurd hloads (hnot d)

/-- A release that finds no lock to load changes nothing. -/
theorem run_release_none (henv : env.Quiet) {stateRoot : JsString} {expected : ExpectedLock}
    (hnot : ∀ d, ¬LockLoads env.date_parse s expected.key d) :
    ((releaseBuildLock env stateRoot expected).run s).2 = s := by
  unfold releaseBuildLock
  by_cases hkey : expected.key ≠ build_lock_key expected.projectId expected.imageId
  · rw [if_pos hkey]
    rfl
  · rw [if_neg hkey]
    have hload := run_load_lock (s := s) henv stateRoot expected.key (note_release env expected)
    rcases hload with ⟨d, hloads, -⟩ | ⟨-, ⟨-, hrun⟩ | ⟨e, hrun⟩⟩
    · exact absurd hloads (hnot d)
    · rw [Prog.run_bind_ok hrun]
      rfl
    · rw [Prog.run_bind_error hrun]

theorem run_make_lock_directory (henv : env.Quiet) : (executionLockDirectory env true).run s =
    (.ok true, { s with build_locks_directory := true }) := by
  unfold executionLockDirectory make_lock_directory
  rw [if_pos rfl, run_perform_bind henv]
  dsimp only
  rw [run_inspect_bind henv]
  dsimp only
  rw [if_pos rfl]
  dsimp only
  by_cases hcreated : (!s.build_locks_directory) = true
  · rw [if_pos hcreated, run_inspect_bind henv]
    rfl
  · rw [if_neg hcreated]
    rfl

/-- A change of the file that the call has created. -/
theorem run_change_lock (henv : env.Quiet) {op : Operation} {key : JsString}
    {f : LockFile → LockFile} {file : LockFile} (hcreator : file.creator = env.call) :
    (change_lock env op key f).run (s.at_lock key (some file)) =
      (.ok (), s.at_lock key (some (f file))) := by
  unfold change_lock
  rw [run_change henv, StateRoot.at_lock_self]
  dsimp only
  rw [if_pos hcreator]
  unfold StateRoot.at_lock
  rw [Function.update_idem]

theorem run_write_lock (henv : env.Quiet) (stateRoot : JsString) {document : BuildExecutionLockV1}
    (hvalid : valid_lock env.date_parse document = true)
    (hbounded : byte_len document.canonical_text ≤ 32 * 1024)
    (hdirectory : s.build_locks_directory = true) :
    ∃ stored : StoredBuildLock, stored.document = document ∧ (write_lock env stateRoot document).run
      (s.at_lock document.key (some ⟨env.call, none, false⟩)) =
        (.ok stored, s.at_lock document.key (some ⟨env.call, some document, true⟩)) := by
  have hpattern : sha_pattern document.key = true := by
    unfold valid_lock at hvalid
    simp only [Bool.and_eq_true] at hvalid
    exact hvalid.1.1.1.1.1.1.1.1.1.1
  have hloads : LockLoads env.date_parse
      (s.at_lock document.key (some ⟨env.call, some document, true⟩)) document.key document :=
    ⟨hpattern, hdirectory, _, StateRoot.at_lock_self _ _ _, rfl, hbounded, hvalid, rfl⟩
  unfold write_lock
  rw [Prog.run_bind_ok (run_change_lock henv rfl), run_inspect_bind henv]
  dsimp only
  rw [Prog.run_bind_ok (run_change_lock henv rfl), run_inspect_bind (henv.part 0)]
  dsimp only
  rw [run_inspect_bind henv]
  dsimp only
  rcases run_load_lock (henv.part 1) stateRoot document.key no_note with
    ⟨d, hloads', hrun⟩ | ⟨hnot, -⟩
  · rw [Prog.run_bind_ok hrun]
    have hd := hloads.unique hloads'
    subst hd
    dsimp only
    rw [if_pos rfl]
    exact ⟨_, rfl, rfl⟩
  · exact absurd hloads (hnot document)

/-- **An acquisition of a lock that is free.** -/
theorem run_acquire (henv : env.Quiet) {stateRoot : JsString} {input : LockIdentity}
    (hvalid : valid_lock env.date_parse (lock_document input) = true)
    (hbounded : byte_len (lock_document input).canonical_text ≤ 32 * 1024)
    (hfree : s.build_locks (lock_document input).key = none) :
    ∃ stored : StoredBuildLock, stored.document = lock_document input ∧
      (acquireBuildLock env stateRoot input).run s = (.ok stored,
        ({ s with build_locks_directory := true } : StateRoot).at_lock (lock_document input).key
          (some ⟨env.call, some (lock_document input), true⟩)) := by
  have hcreate : ((create_lock env (lock_document input).key).map_error (caught .FAILED)).run
      { s with build_locks_directory := true } =
      (.ok true, ({ s with build_locks_directory := true } : StateRoot).at_lock
        (lock_document input).key (some ⟨env.call, none, false⟩)) := by
    unfold create_lock
    rw [Prog.run_map_error, run_perform_labelled henv, hfree]
    rfl
  obtain ⟨stored, hdocument, hwrite⟩ := run_write_lock
    (s := { s with build_locks_directory := true }) (henv.part 1) stateRoot hvalid hbounded rfl
  refine ⟨stored, hdocument, ?_⟩
  unfold acquireBuildLock
  rw [if_neg (by rw [hvalid]; decide), Prog.run_bind_ok (run_make_lock_directory (henv.part 0)),
    Prog.run_bind_ok hcreate, if_pos rfl, Prog.run_attempt_bind]
  have hwrite' : (write_lock (env.part 1) stateRoot (lock_document input)).run
      (({ s with build_locks_directory := true } : StateRoot).at_lock (lock_document input).key
        (some ⟨env.call, none, false⟩)) = _ := hwrite
  rw [hwrite']
  rfl

end Undisturbed

end LeanBun.Execution
