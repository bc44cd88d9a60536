/-
The threads of a build lock.

A coordinator goes through four assertions: it is idle, it has created the file at the
path, it works under the lock, it is idle again and releases. A recovery releases once the
process of the coordinator is gone. Between the read and the unlink of a release the file
is at most removed, as long as no lock is created there. So each thread keeps its
guarantee, and with all of them a release removes the lock of its execution only.
-/
import LeanBun.Execution.Ownership

set_option autoImplicit false

namespace LeanBun.Execution

open LeanBun.Lib

/-! ## Assertions -/

section Holders

variable (roles : ℕ → Role) (home : ℕ → ℤ) (i : ℕ)

/-- The thread's process is there. -/
def Here (s : StateRoot) : Prop := s.gone (home i) = false

/-- The thread works under no lock. -/
def Idle (s : StateRoot) : Prop := Here home i s ∧ s.holding i = none

/-- The file at the path is one that the thread created. -/
def Created (key : JsString) (file : LockFile) (s : StateRoot) : Prop :=
  Idle home i s ∧ s.build_locks key = some file ∧ file.creator = i

/-- Of the coordinators of an execution, the thread itself does not work under its lock
any more, and the others are gone. -/
def Releasable (executionId : JsString) (s : StateRoot) : Prop :=
  ∀ c, Coordinates roles c executionId → (c = i ∧ s.holding i = none) ∨ s.gone (home c) = true

/-- The thread has read a lock of an execution, and is about to unlink it. -/
def Pending (key executionId : JsString) (s : StateRoot) : Prop :=
  s.releasing i = some key ∧ ∀ file, s.build_locks key = some file →
    ∃ d ∈ file.document, d.executionId = executionId

variable {roles home i}

theorem here_assertion : LockAssertion home i (Here home i) where
  stable := fun s s' hrely hs => hrely.here.trans hs
  locks_only := fun s s' hsame hs => by
    rw [Here, hsame.2.1]
    exact hs

theorem idle_assertion : LockAssertion home i (Idle home i) where
  stable := fun s s' hrely hs => ⟨hrely.here.trans hs.1, hrely.holding.trans hs.2⟩
  locks_only := fun s s' hsame hs => by
    rw [Idle, Here, hsame.2.1, hsame.2.2.1]
    exact hs

theorem created_assertion (key : JsString) (file : LockFile) :
    LockAssertion home i (Created home i key file) where
  stable := by
    rintro s s' hrely ⟨hidle, hfile, hcreator⟩
    exact ⟨idle_assertion.stable s s' hrely hidle, hrely.own hidle.1 key file hfile hcreator,
      hcreator⟩
  locks_only := by
    rintro s s' hsame ⟨hidle, hfile, hcreator⟩
    refine ⟨idle_assertion.locks_only s s' hsame hidle, ?_, hcreator⟩
    rw [hsame.1]
    exact hfile

theorem releasable_assertion (executionId : JsString) :
    LockAssertion home i (Releasable roles home i executionId) where
  stable := by
    intro s s' hrely hs c hc
    rcases hs c hc with ⟨hself, hholding⟩ | hgone
    · exact Or.inl ⟨hself, hrely.holding.trans hholding⟩
    · exact Or.inr (hrely.gone _ hgone)
  locks_only := by
    intro s s' hsame hs c hc
    rw [hsame.2.1, hsame.2.2.1]
    exact hs c hc

theorem true_assertion : LockAssertion home i fun _ => True :=
  ⟨fun _ _ _ _ => trivial, fun _ _ _ _ => trivial⟩

theorem stable_pending (key executionId : JsString) :
    Prog.Stable (LockRelies home i) (Pending i key executionId) := by
  rintro s s' hrely ⟨hreleasing, hfile⟩
  refine ⟨hrely.releasing.trans hreleasing, fun file' hfile' => ?_⟩
  obtain ⟨file, hat, -, hdocument⟩ := hrely.pending key hreleasing file' hfile'
  obtain ⟨d, hd, hid⟩ := hfile file hat
  exact ⟨d, hdocument d hd, hid⟩

/-! ## Looking at a lock -/

variable {K : StateRoot → Prop} {env : Environment} {stateRoot : JsString}

theorem does_lock_directory {create : Bool} (hK : LockAssertion home i K) :
    LockDoes roles home i K (executionLockDirectory env create) (fun _ => K) fun _ => K := by
  unfold executionLockDirectory make_lock_directory
  refine Prog.Does.bind (M := fun _ => K) ?_ fun created => (does_look_only lock_rules.store hK).bind fun present => ?_
  · by_cases hcreate : create = true
    · rw [if_pos hcreate]
      exact does_store_only hK fun s hs =>
        ⟨guarantees_store hs.2 ⟨rfl, rfl, rfl, rfl⟩ (hs.2.named.of_executions rfl), rfl, rfl, rfl, rfl⟩
    · rw [if_neg hcreate]
      exact Prog.does_pure hK.stable fun _ hs => hs
  · by_cases hcreated : created = true
    · rw [if_pos hcreated]
      exact (does_look_only lock_rules.store hK).bind fun _ => Prog.does_pure hK.stable fun _ hs => hs
    · rw [if_neg hcreated]
      exact Prog.does_pure hK.stable fun _ hs => hs

/-- `loadBuildLock`, by what its read does. -/
theorem does_load_lock_of {key : JsString} {note : BuildExecutionLockV1 → StateRoot → StateRoot}
    {M : BuildExecutionLockV1 → StateRoot → Prop} (hK : LockAssertion home i K)
    (hM : ∀ d, Prog.Stable (LockRelies home i) (M d))
    (hread : ∀ read_only, LockDoes roles home i K
      (read_lock env (build_lock_path stateRoot key) key read_only note) M fun _ => K) :
    LockDoes roles home i K (loadBuildLock env stateRoot key note)
      (fun stored s => match stored with
        | none => K s
        | some stored => M stored.document s) fun _ => K := by
  unfold loadBuildLock
  by_cases hkey : (!sha_pattern key) = true
  · rw [if_pos hkey]
    exact Prog.does_fail hK.stable fun _ hs => hs
  · rw [if_neg hkey]
    refine (does_lock_directory hK).bind fun present => ?_
    by_cases hpresent : (!present) = true
    · rw [if_pos hpresent]
      exact Prog.does_pure hK.stable fun _ hs => hs
    · rw [if_neg hpresent]
      unfold inspect_lock
      refine (does_look_only lock_rules.store hK).bind fun mode => ?_
      cases mode with
      | none => exact Prog.does_pure hK.stable fun _ hs => hs
      | some read_only =>
        exact (hread read_only).bind fun d => Prog.does_pure (hM d) fun _ hs => hs

theorem does_load_lock {key : JsString} (hK : LockAssertion home i K) :
    LockDoes roles home i K (loadBuildLock env stateRoot key no_note) (fun _ => K) fun _ => K := by
  refine (does_load_lock_of (M := fun _ => K) hK (fun _ => hK.stable) fun read_only => ?_).weaken
    (fun _ hs => hs) ?_ fun _ _ hs => hs
  · unfold read_lock no_note
    refine does_store_only hK fun s hs => ?_
    cases read_lock_result env (build_lock_path stateRoot key) read_only (s.build_locks key) with
    | error e => exact guarantees_none lock_rules.store hs
    | ok d => exact guarantees_none lock_rules.store hs
  · intro stored s hs
    cases stored with
    | none => exact hs
    | some stored => exact hs

/-! ## Releasing -/

/-- The bookkeeping of a release. -/
theorem guarantees_releasing {s : StateRoot} (hs : Owned roles home s) (key : Option JsString) :
    LockGuarantees roles home i .quiet s
      { s with releasing := Function.update s.releasing i key } where
  gone := rfl
  holding := fun _ _ => rfl
  releasing := fun _ hj => Function.update_of_ne hj _ _
  own := fun _ _ _ _ _ hfile _ => hfile
  pending := fun _ _ _ _ => Remains.refl _
  owned := ⟨hs.named.of_executions rfl, hs.locks, hs.held⟩
  removes := fun _ _ hl => (by cases hl)

/-- A change at the path of a lock, where nobody works under the file that is there. Either
no release is about to unlink what is there, or what is there is left or removed. -/
theorem guarantees_at_lock {s : StateRoot} {key : JsString} {after : Option LockFile} {l : Label}
    {releasing : ℕ → Option JsString} (hs : Owned roles home s)
    (hreleasing : ∀ j, j ≠ i → releasing j = s.releasing j)
    (hfree : ∀ file, s.build_locks key = some file →
      (file.creator = i ∧ s.holding i = none) ∨ s.gone (home file.creator) = true)
    (hremains : (∀ j, s.releasing j ≠ some key) ∨ Remains (s.build_locks key) after)
    (hafter : ∀ file, after = some file → ∃ executionId, Coordinates roles file.creator executionId ∧
      ∀ d ∈ file.document, d.executionId = executionId)
    (hl : ∀ key' executionId, l = .lock_released key' executionId →
      ∃ file, s.build_locks key' = some file ∧ ∃ d ∈ file.document, d.executionId = executionId) :
    LockGuarantees roles home i l s { s.at_lock key after with releasing := releasing } := by
  refine ⟨rfl, fun _ _ => rfl, hreleasing, ?_, ?_, ⟨hs.named.of_executions rfl, ?_, ?_⟩, hl⟩
  · intro j hj hhere key' file hat hcreated
    have hkey : key' ≠ key := by
      rintro rfl
      rcases hfree file hat with ⟨hself, -⟩ | hgone
      · exact hj (hcreated.symm.trans hself)
      · rw [hcreated, hhere] at hgone
        cases hgone
    exact (StateRoot.at_lock_other s hkey _).trans hat
  · intro j _ key' hpending file' hat
    by_cases hkey : key' = key
    · subst hkey
      rw [StateRoot.at_lock_self] at hat
      rcases hremains with hnone | hremains
      · exact absurd hpending (hnone j)
      · exact hremains file' hat
    · rw [StateRoot.at_lock_other s hkey] at hat
      exact Remains.refl _ file' hat
  · intro key' file hat
    by_cases hkey : key' = key
    · subst hkey
      rw [StateRoot.at_lock_self] at hat
      exact hafter file hat
    · rw [StateRoot.at_lock_other s hkey] at hat
      exact hs.locks key' file hat
  · intro j key' hholding hhere
    have hheld : s.holding j = some key' := hholding
    obtain ⟨file, hat, hj⟩ := hs.held j key' hheld hhere
    have hkey : key' ≠ key := by
      rintro rfl
      rcases hfree file hat with ⟨hself, hnone⟩ | hgone
      · rw [← hj, hself, hnone] at hheld
        cases hheld
      · rw [hj, show s.gone (home j) = false from hhere] at hgone
        cases hgone
    exact ⟨file, (StateRoot.at_lock_other s hkey _).trans hat, hj⟩

theorem Remains.none (file : Option LockFile) : Remains file none :=
  fun _ h => absurd h (Option.some_ne_none _).symm

/-- What `readLock` returns is the document of the file that it has found. -/
theorem read_lock_result_document {path : JsString} {read_only : Bool} {file : Option LockFile}
    {d : BuildExecutionLockV1} (h : read_lock_result env path read_only file = .ok d) :
    ∃ f, file = some f ∧ f.document = some d := by
  unfold read_lock_result at h
  cases hfile : file with
  | none =>
    rw [hfile] at h
    cases h
  | some f =>
    rw [hfile, Option.bind_some] at h
    cases hdocument : f.document with
    | none =>
      rw [hdocument] at h
      cases h
    | some document =>
      rw [hdocument] at h
      dsimp only at h
      split at h
      · cases h
      · split at h
        · cases h
        · cases h
          exact ⟨f, rfl, hdocument⟩

/-- After the read of a release. -/
def ReadForRelease (roles : ℕ → Role) (home : ℕ → ℤ) (i : ℕ) (expected : ExpectedLock)
    (d : BuildExecutionLockV1) (s : StateRoot) : Prop :=
  Releasable roles home i expected.executionId s ∧
    (expected.matches_lock d = true → Pending i expected.key expected.executionId s)

theorem stable_read_for_release (expected : ExpectedLock) (d : BuildExecutionLockV1) :
    Prog.Stable (LockRelies home i) (ReadForRelease roles home i expected d) :=
  fun s s' hrely hs => ⟨(releasable_assertion _).stable s s' hrely hs.1,
    fun hmatches => stable_pending _ _ s s' hrely (hs.2 hmatches)⟩

theorem does_read_for_release {expected : ExpectedLock} {path : JsString} {read_only : Bool}
    (hcall : env.call = i) :
    LockDoes roles home i (Releasable roles home i expected.executionId)
      (read_lock env path expected.key read_only (note_release env expected))
      (ReadForRelease roles home i expected)
      fun _ => Releasable roles home i expected.executionId := by
  unfold read_lock
  refine does_perform (releasable_assertion _).stable (stable_read_for_release expected)
    (fun _ => (releasable_assertion _).stable) (fun _ _ hs => hs) fun s hs hA => ?_
  cases hread : read_lock_result env path read_only (s.build_locks expected.key) with
  | error e => exact ⟨guarantees_self hA.2, hs⟩
  | ok d =>
    unfold note_release
    dsimp only
    by_cases hmatches : expected.matches_lock d = true
    · rw [if_pos hmatches, hcall]
      refine ⟨guarantees_releasing hA.2 _, hs, fun _ => ⟨Function.update_self _ _ _, ?_⟩⟩
      intro file hfile
      obtain ⟨f, hf, hd⟩ := read_lock_result_document hread
      rw [show s.build_locks expected.key = some file from hfile, Option.some.injEq] at hf
      refine ⟨d, ?_, ?_⟩
      · rw [hf, hd]
        rfl
      · unfold ExpectedLock.matches_lock at hmatches
        simp only [Bool.and_eq_true, decide_eq_true_eq] at hmatches
        exact hmatches.1.1
    · rw [if_neg hmatches]
      exact ⟨guarantees_self hA.2, hs, fun h => absurd h hmatches⟩

theorem does_unlink_released {expected : ExpectedLock} (hcall : env.call = i) :
    LockDoes roles home i
      (fun s => Releasable roles home i expected.executionId s ∧
        Pending i expected.key expected.executionId s)
      (unlink_released env expected)
      (fun _ => Releasable roles home i expected.executionId)
      fun _ => Releasable roles home i expected.executionId := by
  have hstable : Prog.Stable (LockRelies home i)
      (Releasable roles home i expected.executionId) := (releasable_assertion _).stable
  unfold unlink_released end_release
  cases env.faults [] .unlink_lock with
  | some message =>
    refine Prog.does_atomic (hstable.and (stable_pending _ _)) (fun _ => hstable)
      (fun _ => hstable) fun s hs hA => ?_
    rw [hcall]
    exact ⟨guarantees_releasing hA.2 none, hs.1⟩
  | none =>
    refine Prog.does_atomic (hstable.and (stable_pending _ _)) (fun _ => hstable)
      (fun _ => hstable) fun s hs hA => ?_
    cases hfile : s.build_locks expected.key with
    | none =>
      dsimp only
      rw [hcall]
      exact ⟨guarantees_releasing hA.2 none, hs.1⟩
    | some file =>
      dsimp only
      rw [hcall]
      obtain ⟨d, hd, hid⟩ := hs.2.2 file hfile
      refine ⟨guarantees_at_lock hA.2 (fun j hj => Function.update_of_ne hj _ _) ?_
        (.inr (Remains.none _)) (fun _ h => absurd h (Option.some_ne_none _).symm) ?_, hs.1⟩
      · -- the creator of the file coordinates the execution
        intro other hother
        rw [hfile, Option.some.injEq] at hother
        obtain ⟨executionId, hcoordinates, hdocument⟩ := hA.2.locks expected.key file hfile
        rw [← hdocument d hd, hid, hother] at hcoordinates
        exact hs.1 _ hcoordinates
      · intro key' executionId' heq
        rw [Option.isSome_some, if_pos rfl, Label.lock_released.injEq] at heq
        rw [← heq.1, ← heq.2]
        exact ⟨file, hfile, d, hd, hid⟩

/-- **A release.** -/
theorem does_release {expected : ExpectedLock} (hcall : env.call = i) :
    LockDoes roles home i (Releasable roles home i expected.executionId)
      (releaseBuildLock env stateRoot expected)
      (fun _ => Releasable roles home i expected.executionId)
      fun _ => Releasable roles home i expected.executionId := by
  have hK : LockAssertion home i (Releasable roles home i expected.executionId) :=
    releasable_assertion _
  unfold releaseBuildLock
  by_cases hkey : expected.key ≠ build_lock_key expected.projectId expected.imageId
  · rw [if_pos hkey]
    exact Prog.does_fail hK.stable fun _ hs => hs
  · rw [if_neg hkey]
    refine (does_load_lock_of hK (stable_read_for_release expected) fun read_only =>
      does_read_for_release hcall).bind fun existing => ?_
    cases existing with
    | none => exact Prog.does_pure hK.stable fun _ hs => hs
    | some existing =>
      dsimp only
      by_cases hmatches : expected.matches_lock existing.document = true
      · rw [if_neg (by rw [hmatches]; decide)]
        refine Prog.Does.bind ((does_unlink_released hcall).weaken
          (fun s hs => ⟨hs.1, hs.2 hmatches⟩) (fun _ _ hs => hs) fun _ _ hs => hs) fun _ => ?_
        exact (does_look_only lock_rules.store hK).bind fun _ => Prog.does_pure hK.stable fun _ hs => hs
      · rw [if_pos (by rw [Bool.not_eq_true] at hmatches; rw [hmatches]; rfl)]
        exact Prog.does_fail (stable_read_for_release expected _) fun _ hs => hs.1

/-! ## Acquiring -/

theorem does_create_lock {key executionId : JsString} (hcall : env.call = i)
    (hi : Coordinates roles i executionId) :
    LockDoes roles home i (Idle home i) (create_lock env key)
      (fun created => if created then Created home i key ⟨i, none, false⟩ else Idle home i)
      fun _ => Idle home i := by
  unfold create_lock
  refine does_perform_labelled idle_assertion.stable (fun created => ?_)
    (fun _ => idle_assertion.stable) (fun _ _ hs => hs) fun s hs hA => ?_
  · cases created with
    | true => exact (created_assertion key _).stable
    | false => exact idle_assertion.stable
  · cases hfile : s.build_locks key with
    | some file => exact ⟨guarantees_self hA.2, hs⟩
    | none =>
      have hpending : ∀ j, s.releasing j ≠ some key := by
        refine hA.1 key ?_
        rw [hfile]
        rfl
      rw [hcall]
      refine ⟨guarantees_at_lock hA.2 (fun _ _ => rfl) ?_ (.inl hpending) ?_ ?_, hs,
        StateRoot.at_lock_self _ _ _, rfl⟩
      · intro file hat
        rw [hfile] at hat
        cases hat
      · intro file hat
        rw [← Option.some.inj hat]
        exact ⟨executionId, hi, fun d hd => (by cases hd)⟩
      · intro key' executionId' heq
        cases heq

/-- Some file at the path is one that the thread created. -/
def CreatedSome (home : ℕ → ℤ) (i : ℕ) (key : JsString) (s : StateRoot) : Prop :=
  ∃ file, Created home i key file s

theorem stable_created_some (key : JsString) :
    Prog.Stable (LockRelies home i) (CreatedSome home i key) :=
  fun s s' hrely ⟨file, hfile⟩ => ⟨file, (created_assertion key file).stable s s' hrely hfile⟩

/-- A change of the file that the thread created, through its handle. -/
theorem does_change_lock {op : Operation} {key executionId : JsString} {f : LockFile → LockFile}
    {file : LockFile} (hcall : env.call = i) (hi : Coordinates roles i executionId)
    (hcreator : (f file).creator = file.creator) (hkeeps : ∀ d ∈ file.document, d ∈ (f file).document)
    (hdocument : ∀ d ∈ (f file).document, d.executionId = executionId) :
    LockDoes roles home i (Created home i key file) (change_lock env op key f)
      (fun _ => Created home i key (f file)) fun _ => CreatedSome home i key := by
  unfold change_lock
  refine does_perform (created_assertion key file).stable (fun _ => (created_assertion key _).stable)
    (fun _ => stable_created_some key) (fun _ _ hs => ⟨file, hs⟩) fun s hs hA => ?_
  obtain ⟨hidle, hfile, hself⟩ := hs
  have hself' : (f file).creator = i := hcreator.trans hself
  dsimp only
  rw [hfile]
  dsimp only
  rw [if_pos (hself.trans hcall.symm)]
  refine ⟨guarantees_at_lock hA.2 (fun _ _ => rfl) ?_ (.inr ?_) ?_ ?_, hidle,
    StateRoot.at_lock_self _ _ _, hself'⟩
  · intro other hat
    rw [hfile, Option.some.injEq] at hat
    exact Or.inl ⟨by rw [← hat]; exact hself, hidle.2⟩
  · intro file' hat
    rw [← Option.some.inj hat]
    exact ⟨file, hfile, hcreator.symm, hkeeps⟩
  · intro other hat
    rw [← Option.some.inj hat, hself']
    exact ⟨executionId, hi, hdocument⟩
  · intro key' executionId' heq
    cases heq

theorem does_unlink_created {key : JsString} :
    LockDoes roles home i (CreatedSome home i key) (unlink_created env key) (fun _ => Idle home i)
      fun _ => Idle home i := by
  unfold unlink_created
  refine does_ignore idle_assertion.stable (does_perform (stable_created_some key)
    (fun _ => idle_assertion.stable) (fun _ => idle_assertion.stable)
    (fun _ _ hs => hs.choose_spec.1) fun s hs hA => ?_)
  obtain ⟨file, hidle, hfile, hself⟩ := hs
  refine ⟨guarantees_at_lock hA.2 (fun _ _ => rfl) ?_ (.inr (Remains.none _))
    (fun _ h => absurd h (Option.some_ne_none _).symm) ?_, hidle⟩
  · intro other hat
    rw [hfile, Option.some.injEq] at hat
    exact Or.inl ⟨by rw [← hat]; exact hself, hidle.2⟩
  · intro key' executionId' heq
    cases heq

theorem does_look_created {op : Operation} {key : JsString} {file : LockFile} {α : Type}
    {f : StateRoot → Except StoreFailure α} :
    LockDoes roles home i (Created home i key file) (env.inspect op f)
      (fun _ => Created home i key file) fun _ => CreatedSome home i key :=
  (does_look_only lock_rules.store (created_assertion key file)).weaken (fun _ hs => hs) (fun _ _ hs => hs)
    fun _ _ hs => ⟨file, hs⟩

theorem does_write_lock {document : BuildExecutionLockV1} (hcall : env.call = i)
    (hi : Coordinates roles i document.executionId) :
    LockDoes roles home i (Created home i document.key ⟨i, none, false⟩)
      (write_lock env stateRoot document)
      (fun stored s => CreatedSome home i document.key s ∧ stored.document = document)
      fun _ => CreatedSome home i document.key := by
  have hdocument : ∀ d ∈ some document, d.executionId = document.executionId := by
    intro d hd
    cases hd
    rfl
  unfold write_lock
  refine Prog.Does.bind (does_change_lock hcall hi rfl (fun d hd => (by cases hd)) hdocument)
    fun _ => does_look_created.bind fun _ => Prog.Does.bind
      (does_change_lock hcall hi rfl (fun _ hd => hd) hdocument) fun _ =>
    does_look_created.bind fun _ => does_look_created.bind fun _ => ?_
  refine Prog.Does.bind ((does_load_lock (created_assertion document.key _)).weaken
    (fun _ hs => hs) (fun _ _ hs => hs) fun _ _ hs => ⟨_, hs⟩) fun verified => ?_
  have hstable : Prog.Stable (LockRelies home i)
      (Created home i document.key ⟨i, some document, true⟩) := (created_assertion _ _).stable
  cases verified with
  | none => exact Prog.does_fail hstable fun _ hs => ⟨_, hs⟩
  | some verified =>
    dsimp only
    by_cases hsame : verified.document = document
    · rw [if_pos hsame]
      exact Prog.does_pure hstable fun _ hs => ⟨⟨_, hs⟩, hsame⟩
    · rw [if_neg hsame]
      exact Prog.does_fail hstable fun _ hs => ⟨_, hs⟩

/-- Nothing is acquired by waiting. -/
theorem does_wait_for_owner {key : JsString} (attempts : ℕ) (failure : JsString) :
    LockDoes roles home i (Idle home i) (wait_for_owner env stateRoot key failure attempts)
      (fun _ _ => False) fun _ => Idle home i := by
  induction attempts generalizing failure with
  | zero => exact Prog.does_fail idle_assertion.stable fun _ hs => hs
  | succ attempts ih =>
    unfold wait_for_owner
    refine (Prog.does_attempt (does_load_lock idle_assertion)).bind fun existing => ?_
    cases existing with
    | error e => exact ih e.message
    | ok found =>
      cases found with
      | none => exact ih failure
      | some stored => exact Prog.does_fail idle_assertion.stable fun _ hs => hs

/-- **An acquisition.** -/
theorem does_acquire {input : LockIdentity} (hcall : env.call = i)
    (hi : Coordinates roles i input.executionId) :
    LockDoes roles home i (Idle home i) (acquireBuildLock env stateRoot input)
      (fun stored s => CreatedSome home i (lock_document input).key s ∧
        stored.document = lock_document input)
      fun _ => Idle home i := by
  unfold acquireBuildLock
  by_cases hvalid : (!valid_lock env.date_parse (lock_document input)) = true
  · rw [if_pos hvalid]
    exact Prog.does_fail idle_assertion.stable fun _ hs => hs
  · rw [if_neg hvalid]
    refine (does_lock_directory idle_assertion).bind fun _ =>
      Prog.Does.bind (Prog.does_map_error (does_create_lock hcall hi)) fun created => ?_
    cases created with
    | false =>
      exact (does_wait_for_owner 100 []).weaken (fun _ hs => hs) (fun _ _ hs => hs.elim)
        fun _ _ hs => hs
    | true =>
      rw [if_pos rfl]
      have hdocument : Coordinates roles i (lock_document input).executionId := hi
      refine (Prog.does_attempt (does_write_lock (show (env.part 1).call = i from hcall)
        hdocument)).bind fun written => ?_
      cases written with
      | ok stored =>
        refine Prog.does_pure (fun s s' hrely hs => ⟨?_, hs.2⟩) fun _ hs => hs
        exact stable_created_some _ s s' hrely hs.1
      | error e =>
        exact does_unlink_created.bind fun _ => Prog.does_fail idle_assertion.stable fun _ hs => hs

/-! ## Coordinators -/

/-- The work under the lock that the thread has created begins. -/
theorem does_hold {key : JsString} (hcall : env.call = i) :
    LockDoes roles home i (CreatedSome home i key) (hold env (some key)) (fun _ => Here home i)
      fun _ => Here home i := by
  unfold hold Prog.write
  rw [hcall]
  refine Prog.does_atomic (stable_created_some key) (fun _ => here_assertion.stable)
    (fun _ => here_assertion.stable) fun s hs hA => ?_
  obtain ⟨file, hidle, hfile, hself⟩ := hs
  refine ⟨⟨rfl, fun j hj => Function.update_of_ne hj _ _, fun _ _ => rfl,
    fun _ _ _ _ _ hat _ => hat, fun _ _ _ _ => Remains.refl _,
    ⟨hA.2.named.of_executions rfl, hA.2.locks, ?_⟩, fun _ _ hl => (by cases hl)⟩, hidle.1⟩
  intro j key' hholding hhere
  by_cases hj : j = i
  · subst hj
    dsimp only at hholding
    rw [Function.update_self, Option.some.injEq] at hholding
    rw [← hholding]
    exact ⟨file, hfile, hself⟩
  · dsimp only at hholding
    rw [Function.update_of_ne hj] at hholding
    exact hA.2.held j key' hholding hhere

/-- The work is over. -/
theorem does_let_go (hcall : env.call = i) :
    LockDoes roles home i (Here home i) (hold env none) (fun _ => Idle home i)
      fun _ => Here home i := by
  unfold hold Prog.write
  rw [hcall]
  refine Prog.does_atomic here_assertion.stable (fun _ => idle_assertion.stable)
    (fun _ => here_assertion.stable) fun s hs hA => ?_
  refine ⟨⟨rfl, fun j hj => Function.update_of_ne hj _ _, fun _ _ => rfl,
    fun _ _ _ _ _ hat _ => hat, fun _ _ _ _ => Remains.refl _,
    ⟨hA.2.named.of_executions rfl, hA.2.locks, ?_⟩, fun _ _ hl => (by cases hl)⟩, hs,
    Function.update_self _ _ _⟩
  intro j key' hholding hhere
  by_cases hj : j = i
  · subst hj
    dsimp only at hholding
    rw [Function.update_self] at hholding
    cases hholding
  · dsimp only at hholding
    rw [Function.update_of_ne hj] at hholding
    exact hA.2.held j key' hholding hhere

/-- A coordinator that works no more may release the lock of its execution. -/
theorem idle_releasable {executionId : JsString} (hdistinct : DistinctExecutions roles)
    (hi : Coordinates roles i executionId) {s : StateRoot} (hs : Idle home i s) :
    Releasable roles home i executionId s :=
  fun c hc => Or.inl ⟨hdistinct c i executionId hc hi, hs.2⟩

/-- The end of the work and the release after it. -/
theorem does_end_work {α : Type} {env' : Environment} {input : LockIdentity}
    {lock : BuildExecutionLockV1} {report : ReleaseStatus → α} (hcall : env.call = i)
    (hcall' : env'.call = i) (hdistinct : DistinctExecutions roles)
    (hi : Coordinates roles i input.executionId) (hlock : lock = lock_document input) :
    LockDoes roles home i (Here home i) (do
      hold env none
      let result ← releaseBuildLock env' stateRoot lock.expected
      return report result) (fun _ _ => True) fun _ _ => True := by
  subst hlock
  have hrelease : LockDoes roles home i (Idle home i)
      (releaseBuildLock env' stateRoot (lock_document input).expected)
      (fun _ => Releasable roles home i input.executionId) fun _ _ => True :=
    (does_release hcall').weaken
      (fun _ hs => idle_releasable hdistinct hi hs) (fun _ _ hs => hs) fun _ _ _ => trivial
  refine Prog.Does.bind ((does_let_go hcall).weaken (fun _ hs => hs) (fun _ _ hs => hs)
    fun _ _ _ => trivial) fun _ => hrelease.bind fun _ => ?_
  exact Prog.does_pure (releasable_assertion _).stable fun _ _ => trivial

/-- **A coordinator.** -/
theorem does_run_execution {input : CoordinatorInput} {profileSha256 reusePolicySha256 :
    Option JsString} {prepared : Bool} {work : Work} (hcall : env.call = i)
    (hdistinct : DistinctExecutions roles) (hi : Coordinates roles i input.lock.executionId)
    (hpid : input.lock.coordinatorPid = home i) :
    LockDoes roles home i (Idle home i)
      (run_execution env stateRoot input profileSha256 reusePolicySha256 prepared work)
      (fun _ _ => True) fun _ _ => True := by
  have hnames : ∀ key, NamesProcess roles home
      (input.identity profileSha256 reusePolicySha256 key).started := by
    intro key c hc
    rw [hdistinct c i input.lock.executionId hc hi, ← hpid]
    rfl
  have hacquire : LockDoes roles home i (Idle home i)
      (acquireBuildLock (env.part 0) stateRoot input.lock)
      (fun stored s => CreatedSome home i (lock_document input.lock).key s ∧
        stored.document = lock_document input.lock) fun _ => Idle home i :=
    does_acquire hcall hi
  unfold run_execution
  refine (Prog.does_attempt hacquire).bind fun acquired => ?_
  cases acquired with
  | error e => exact Prog.does_pure idle_assertion.stable fun _ _ => trivial
  | ok lock =>
    refine Prog.does_of_fact fun hlock => ?_
    have hhold : LockDoes roles home i (CreatedSome home i (lock_document input.lock).key)
        (hold env (some lock.document.key)) (fun _ => Here home i) fun _ _ => True := by
      rw [hlock]
      exact (does_hold hcall).weaken (fun _ hs => hs) (fun _ _ hs => hs) fun _ _ _ => trivial
    refine hhold.bind fun _ => ?_
    have hbegin : LockDoes roles home i (Here home i)
        (if prepared then beginExecutionRecord (env.part 1) stateRoot
          (input.identity profileSha256 reusePolicySha256 lock.document.key)
          else .fail (.node .other [])) (fun _ => Here home i) fun _ => Here home i := by
      by_cases hprepared : prepared = true
      · rw [if_pos hprepared]
        exact (does_begin_record lock_rules.store here_assertion (hnames _)).weaken (fun _ hs => hs)
          (fun _ _ hs => hs.1) fun _ _ hs => hs
      · rw [if_neg hprepared]
        exact Prog.does_fail here_assertion.stable fun _ hs => hs
    refine (Prog.does_attempt hbegin).bind fun begun => ?_
    cases begun with
    | error e => exact does_end_work hcall (show (env.part 2).call = i from hcall) hdistinct hi hlock
    | ok stored =>
      cases work with
      | unreaped =>
        refine Prog.Does.bind ((does_load_record lock_rules.store here_assertion).weaken (fun _ hs => hs)
          (fun _ _ hs => hs.1) fun _ _ _ => trivial) fun _ => ?_
        exact Prog.does_pure here_assertion.stable fun _ _ => trivial
      | finished status finishedAt outcome =>
        refine Prog.Does.bind ((does_finalize_record lock_rules here_assertion).weaken (fun _ hs => hs)
          (fun _ _ hs => hs.1) fun _ _ _ => trivial) fun _ => ?_
        exact does_end_work hcall (show (env.part 5).call = i from hcall) hdistinct hi hlock

end Holders

end LeanBun.Execution
