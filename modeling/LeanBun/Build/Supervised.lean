/-
Supervised processes and their output.

Two threads read the pipes of a process while the caller waits for its end. They keep the
first bytes of each pipe and notice when there are more. The run of a program looks at that
note while it waits and stops the process; the run of a Lake build looks at it when all is
read. Whatever the process does and in whatever order the three go on, a Lake build is
accepted with its whole output only; a program can end between the note and the look at it,
and then its output is passed off as complete.

A process that has been waited for can leave its pipes open to others, so that bytes are
written after its end. Nothing is said about time but whether the deadline has passed.
-/
import Mathlib

set_option autoImplicit false

namespace LeanBun.Build.Supervised

/-! ## Results -/

/-- `BuildErrorKind`, as far as a run reports it. -/
inductive BuildErrorKind where
  | TimedOut
  | Signalled
  | OutputOverflow
  | LakeNonzero
  | PathDrift
  | Io
deriving DecidableEq

structure BuildError where
  kind : BuildErrorKind
  message : String
deriving DecidableEq

/-- `ExitStatus`: a code or a signal. -/
inductive ExitStatus where
  | code (value : ℤ)
  | signal (value : ℤ)
deriving DecidableEq

def ExitStatus.code? : ExitStatus → Option ℤ
  | .code value => some value
  | .signal _ => none

def ExitStatus.signal? : ExitStatus → Option ℤ
  | .code _ => none
  | .signal value => some value

/-- `u8::try_from`. -/
def u8_try_from (value : ℤ) : Option ℕ := if 0 ≤ value ∧ value < 256 then some value.toNat else none

/-- `128_i32.saturating_add`. -/
def saturating_128 (value : ℤ) : ℤ := min (128 + value) 2147483647

/-- `ProgramTerminationReasonV1`. -/
inductive ProgramTerminationReasonV1 where
  | Exit
  | Signal
  | Timeout
  | OutputOverflow
deriving DecidableEq

/-- `ProgramRunResultV1`. -/
structure ProgramRunResultV1 where
  exit_code : ℕ
  stdout : List UInt8
  stderr : List UInt8
  termination : ProgramTerminationReasonV1
  signal : Option ℤ
  process_group_id : ℕ
deriving DecidableEq

/-- `TerminationReasonV1`. -/
inductive TerminationReasonV1 where
  | Exit
  | Timeout
  | Signal
deriving DecidableEq

/-- `BuildResultV1`. -/
structure BuildResultV1 where
  exit_code : ℤ
  stdout : List UInt8
  stderr : List UInt8
  termination : TerminationReasonV1
  process_group_id : ℕ
  output_overflow : Bool
deriving DecidableEq

/-! ## The three threads -/

inductive Stream where
  | stdout
  | stderr
deriving DecidableEq

/-- A thread in `read_bounded` or `read_bounded_signal`: what it keeps, how many bytes it has
read, whether there were too many, and its result. -/
structure Reader where
  output : List UInt8
  consumed : ℕ
  overflow : Bool
  finished : Option (Except BuildError Unit)

/-- Why the process is stopped. -/
inductive Forced where
  | Timeout
  | OutputOverflow
deriving DecidableEq

/-- What the wait loop has in the end. -/
structure Ended where
  forced : Option Forced
  status : ExitStatus
  stdout : List UInt8 × Bool
  stderr : List UInt8 × Bool

/-- Where the caller stands: before the first `try_wait` of a round, before the look at the
note and the clock, on its way to stop the process, or before a `join`. -/
inductive Wait where
  | poll
  | look
  | signal (forced : Forced)
  | grace (forced : Forced)
  | clock (forced : Forced)
  | kill (forced : Forced)
  | reap (forced : Forced)
  | join_stdout (forced : Option Forced) (status : ExitStatus)
  | join_stderr (forced : Option Forced) (status : ExitStatus)
  | returned (outcome : Except BuildError Ended)

/-- The pipes with all that has been written to them, the threads, the process and the clock. -/
structure State where
  written : Stream → List UInt8
  closed : Stream → Bool
  reader : Stream → Reader
  status : Option ExitStatus
  late : Bool
  wait : Wait

/-- What a run is given: the bound of its output, whether the loop looks at the note of the
readers, and the process group. -/
structure Supervision where
  maximum_output_bytes : ℕ
  watches : Bool
  process_group_id : ℕ

/-! ## Steps -/

/-- `AtomicBool::load` of the note that both readers share. -/
def State.overflow (s : State) : Bool := (s.reader .stdout).overflow || (s.reader .stderr).overflow

/-- What the system answers to a call of the wait loop. -/
inductive Answer where
  | fine
  | elapsed
  | failed (error : BuildError)

/-- Where the caller stands after a step, if it can take one with this answer. -/
def Supervision.advance (run : Supervision) (s : State) (answer : Answer) : Option Wait :=
  match s.wait, answer with
  | .poll, .fine =>
    match s.status with
    | some status => some (.join_stdout none status)
    | none => some .look
  | .look, .fine =>
    if run.watches && s.overflow then some (.signal .OutputOverflow)
    else if s.late then some (.signal .Timeout)
    else some .poll
  | .signal forced, .fine => some (.grace forced)
  | .grace forced, .fine =>
    match s.status with
    | some status => some (.join_stdout (some forced) status)
    | none => some (.clock forced)
  | .clock forced, .fine => some (.grace forced)
  | .clock forced, .elapsed => some (.kill forced)
  | .kill forced, .fine => some (.reap forced)
  | .reap forced, .fine => s.status.map (.join_stdout (some forced))
  | .join_stdout forced status, .fine =>
    match (s.reader .stdout).finished with
    | none => none
    | some (.error e) => some (.returned (.error e))
    | some (.ok ()) => some (.join_stderr forced status)
  | .join_stderr forced status, .fine =>
    match (s.reader .stderr).finished with
    | none => none
    | some (.error e) => some (.returned (.error e))
    | some (.ok ()) => some (.returned (.ok ⟨forced, status,
        ((s.reader .stdout).output, (s.reader .stdout).overflow),
        ((s.reader .stderr).output, (s.reader .stderr).overflow)⟩))
  | .poll, .failed e => some (.returned (.error e))
  | .signal _, .failed e => some (.returned (.error e))
  | .grace _, .failed e => some (.returned (.error e))
  | .kill _, .failed e => some (.returned (.error e))
  | .reap _, .failed e => some (.returned (.error e))
  | _, _ => none

/-- The reader after a `read` of a chunk. -/
def Reader.read (maximum : ℕ) (reader : Reader) (chunk : List UInt8) : Reader :=
  let remaining := maximum - reader.output.length
  { reader with
    output := reader.output ++ chunk.take (min chunk.length remaining)
    consumed := reader.consumed + chunk.length
    overflow := reader.overflow || decide (remaining < chunk.length) }

def State.set_reader (s : State) (stream : Stream) (reader : Reader) : State :=
  { s with reader := Function.update s.reader stream reader }

/-- The size of the buffer of a reader. -/
def chunk_size : ℕ := 8192

/-- **One step**, of the process and what it has started, of a reader or of the caller. -/
inductive Step (run : Supervision) : State → State → Prop
  | write {s : State} (stream : Stream) (bytes : List UInt8) (hopen : s.closed stream = false) :
      Step run s { s with written := Function.update s.written stream (s.written stream ++ bytes) }
  | close {s : State} (stream : Stream) :
      Step run s { s with closed := Function.update s.closed stream true }
  | exit {s : State} (status : ExitStatus) (hruns : s.status = none) :
      Step run s { s with status := some status }
  | deadline {s : State} : Step run s { s with late := true }
  | read {s : State} (stream : Stream) (chunk : List UInt8)
      (hruns : (s.reader stream).finished = none) (hsome : chunk ≠ [])
      (hsize : chunk.length ≤ chunk_size)
      (hfront : chunk <+: (s.written stream).drop (s.reader stream).consumed) :
      Step run s (s.set_reader stream ((s.reader stream).read run.maximum_output_bytes chunk))
  | finish {s : State} (stream : Stream) (hruns : (s.reader stream).finished = none)
      (hclosed : s.closed stream = true)
      (hall : (s.reader stream).consumed = (s.written stream).length) :
      Step run s (s.set_reader stream { s.reader stream with finished := some (.ok ()) })
  | fail {s : State} (stream : Stream) (error : BuildError)
      (hruns : (s.reader stream).finished = none) :
      Step run s (s.set_reader stream { s.reader stream with finished := some (.error error) })
  | wait {s : State} (answer : Answer) (next : Wait) (hnext : run.advance s answer = some next) :
      Step run s { s with wait := next }

/-- The process has been started, and both threads. -/
def start : State where
  written _ := []
  closed _ := false
  reader _ := ⟨[], 0, false, none⟩
  status := none
  late := false
  wait := .poll

/-- A run, all of whose steps are taken where a condition holds. -/
inductive Run (run : Supervision) (condition : State → Prop) : State → Prop
  | start : Run run condition start
  | step {s s' : State} (hrun : Run run condition s) (hcondition : condition s) (hstep : Step run s s') :
      Run run condition s'

/-! ## What is returned -/

/-- The reason of `run_supervised_program_v1`. -/
def program_termination (ended : Ended) : ProgramTerminationReasonV1 :=
  match ended.forced with
  | some .Timeout => .Timeout
  | some .OutputOverflow => .OutputOverflow
  | none => if ended.status.signal?.isSome then .Signal else .Exit

/-- The exit code of `run_supervised_program_v1`. -/
def program_exit_code (ended : Ended) : ℕ :=
  match program_termination ended with
  | .Timeout => 124
  | .OutputOverflow => 125
  | .Signal => (ended.status.signal?.bind fun value => u8_try_from (saturating_128 value)).getD 128
  | .Exit => (ended.status.code?.bind u8_try_from).getD 1

/-- The result of `run_supervised_program_v1`. -/
def program_result (run : Supervision) (ended : Ended) : ProgramRunResultV1 where
  exit_code := program_exit_code ended
  stdout := ended.stdout.1
  stderr := ended.stderr.1
  termination := program_termination ended
  signal := ended.status.signal?
  process_group_id := run.process_group_id

/-- The reason of a Lake build. -/
def lake_termination (ended : Ended) : TerminationReasonV1 :=
  if ended.forced.isSome then .Timeout
  else if ended.status.code?.isNone then .Signal
  else .Exit

/-- The end of `execute`. The text of what Lake has written is left out of the message. -/
def lake_result (run : Supervision) (ended : Ended) : Except BuildError BuildResultV1 :=
  let result : BuildResultV1 := {
    exit_code := ended.status.code?.getD 128
    stdout := ended.stdout.1
    stderr := ended.stderr.1
    termination := lake_termination ended
    process_group_id := run.process_group_id
    output_overflow := ended.stdout.2 || ended.stderr.2 }
  if result.output_overflow then .error ⟨.OutputOverflow, "Lake output exceeded its bound"⟩
  else if result.termination = .Timeout then
    .error ⟨.TimedOut, "Lake process group exceeded its deadline"⟩
  else if result.termination = .Signal then .error ⟨.Signalled, "Lake process group ended by signal"⟩
  else if ended.status ≠ .code 0 then .error ⟨.LakeNonzero, "Lake exited nonzero"⟩
  else .ok result

/-! ## What every run keeps -/

/-- A reader has kept the first bytes that it has read, and notes that there were more. -/
structure Kept (maximum : ℕ) (written : List UInt8) (closed : Bool) (reader : Reader) : Prop where
  consumed : reader.consumed ≤ written.length
  output : reader.output = (written.take reader.consumed).take maximum
  overflow : reader.overflow = true ↔ maximum < reader.consumed
  finished : reader.finished = some (.ok ()) → closed = true ∧ reader.consumed = written.length

/-- The reason for which a process is stopped is there. -/
def Reason (run : Supervision) (s : State) : Option Forced → Prop
  | none => True
  | some .Timeout => s.late = true
  | some .OutputOverflow => ∃ stream, run.maximum_output_bytes < (s.written stream).length

/-- The result that a thread has returned. -/
def Returned (s : State) (stream : Stream) (result : List UInt8 × Bool) : Prop :=
  (s.reader stream).finished = some (.ok ()) ∧
    result = ((s.reader stream).output, (s.reader stream).overflow)

/-- What is known where the caller stands. -/
def Stands (run : Supervision) (s : State) : Prop :=
  match s.wait with
  | .poll => True
  | .look => True
  | .signal forced => Reason run s (some forced)
  | .grace forced => Reason run s (some forced)
  | .clock forced => Reason run s (some forced)
  | .kill forced => Reason run s (some forced)
  | .reap forced => Reason run s (some forced)
  | .join_stdout forced _ => Reason run s forced
  | .join_stderr forced _ => Reason run s forced ∧ (s.reader .stdout).finished = some (.ok ())
  | .returned (.error _) => True
  | .returned (.ok ended) => Reason run s ended.forced ∧ Returned s .stdout ended.stdout ∧
      Returned s .stderr ended.stderr

/-- **The invariant.** -/
structure Invariant (run : Supervision) (s : State) : Prop where
  kept : ∀ stream, Kept run.maximum_output_bytes (s.written stream) (s.closed stream)
    (s.reader stream)
  stands : Stands run s

variable {run : Supervision} {s s' : State}

theorem start_invariant : Invariant run start := by
  refine ⟨fun stream => ⟨Nat.le_refl _, by simp [start], ?_, ?_⟩, trivial⟩
  · exact iff_of_false (by simp [start]) (Nat.not_lt_zero _)
  · exact fun h => absurd h (by simp [start])

/-! ### The readers -/

/-- More bytes at the end of a pipe change nothing for its reader. -/
theorem Kept.write {maximum : ℕ} {written : List UInt8} {reader : Reader}
    (h : Kept maximum written false reader) (bytes : List UInt8) :
    Kept maximum (written ++ bytes) false reader := by
  refine ⟨?_, ?_, h.overflow, fun hfinished => absurd (h.finished hfinished).1 (by simp)⟩
  · have := h.consumed
    rw [List.length_append]
    omega
  · rw [List.take_append_of_le_length h.consumed]
    exact h.output

theorem Kept.close {maximum : ℕ} {written : List UInt8} {closed : Bool} {reader : Reader}
    (h : Kept maximum written closed reader) : Kept maximum written true reader :=
  ⟨h.consumed, h.output, h.overflow, fun hfinished => ⟨rfl, (h.finished hfinished).2⟩⟩

/-- **A read** keeps what there is room for. -/
theorem Kept.read {maximum : ℕ} {written chunk : List UInt8} {closed : Bool} {reader : Reader}
    (h : Kept maximum written closed reader) (hruns : reader.finished = none)
    (hfront : chunk <+: written.drop reader.consumed) :
    Kept maximum written closed (reader.read maximum chunk) := by
  obtain ⟨rest, hrest⟩ := hfront
  have hconsumed := h.consumed
  have hlength : chunk.length ≤ written.length - reader.consumed := by
    rw [← List.length_drop, ← hrest, List.length_append]
    omega
  have hkept : reader.output.length = min maximum reader.consumed := by
    rw [h.output, List.length_take, List.length_take]
    omega
  have htake : written.take (reader.consumed + chunk.length) = written.take reader.consumed ++ chunk := by
    rw [List.take_add, ← hrest, List.take_left]
  refine ⟨?_, ?_, ?_, ?_⟩
  · show reader.consumed + chunk.length ≤ written.length
    omega
  · show reader.output ++ chunk.take (min chunk.length (maximum - reader.output.length)) =
      (written.take (reader.consumed + chunk.length)).take maximum
    have hfull : (written.take reader.consumed).length = reader.consumed := by
      rw [List.length_take]
      omega
    rw [htake, List.take_append, ← h.output, hfull, hkept]
    congr 1
    by_cases hroom : reader.consumed ≤ maximum
    · rw [Nat.min_eq_right hroom]
      by_cases hshort : chunk.length ≤ maximum - reader.consumed
      · rw [Nat.min_eq_left hshort, List.take_length, List.take_of_length_le hshort]
      · rw [Nat.min_eq_right (by omega)]
    · have hmin : min maximum reader.consumed = maximum := Nat.min_eq_left (by omega)
      have hnone : maximum - reader.consumed = 0 := by omega
      rw [hmin, hnone, Nat.sub_self, Nat.min_zero]
  · show (reader.overflow || decide (maximum - reader.output.length < chunk.length)) = true ↔
      maximum < reader.consumed + chunk.length
    rw [Bool.or_eq_true, decide_eq_true_iff, h.overflow, hkept]
    omega
  · show reader.finished = some (.ok ()) → _
    rw [hruns]
    exact fun h => absurd h (by simp)

/-- The kept bytes are all bytes, unless there were too many. -/
theorem Kept.complete {maximum : ℕ} {written : List UInt8} {closed : Bool} {reader : Reader}
    (h : Kept maximum written closed reader) (hfinished : reader.finished = some (.ok ())) :
    reader.output = written.take maximum ∧ (reader.overflow = true ↔ maximum < written.length) := by
  obtain ⟨-, hall⟩ := h.finished hfinished
  have houtput := h.output
  have hoverflow := h.overflow
  rw [hall, List.take_length] at houtput
  rw [hall] at hoverflow
  exact ⟨houtput, hoverflow⟩

/-! ### The steps -/

/-- Reasons stay. -/
theorem Reason.mono (hwritten : ∀ stream, (s.written stream).length ≤ (s'.written stream).length)
    (hlate : s.late = true → s'.late = true) {forced : Option Forced} (h : Reason run s forced) :
    Reason run s' forced := by
  match forced, h with
  | none, _ => exact trivial
  | some .Timeout, h => exact hlate h
  | some .OutputOverflow, ⟨stream, h⟩ => exact ⟨stream, Nat.lt_of_lt_of_le h (hwritten stream)⟩

/-- A step that is not one of the caller leaves what is known of it. -/
theorem Stands.mono (hwait : s'.wait = s.wait)
    (hwritten : ∀ stream, (s.written stream).length ≤ (s'.written stream).length)
    (hlate : s.late = true → s'.late = true)
    (hreader : ∀ stream, (s.reader stream).finished ≠ none → s'.reader stream = s.reader stream)
    (h : Stands run s) : Stands run s' := by
  have hreason {forced : Option Forced} (h : Reason run s forced) : Reason run s' forced :=
    h.mono hwritten hlate
  have hfinished {stream : Stream} (h : (s.reader stream).finished = some (.ok ())) :
      s'.reader stream = s.reader stream := hreader stream (by rw [h]; simp)
  unfold Stands at h ⊢
  rw [hwait]
  split at h
  · exact trivial
  · exact trivial
  · exact hreason h
  · exact hreason h
  · exact hreason h
  · exact hreason h
  · exact hreason h
  · exact hreason h
  · refine ⟨hreason h.1, ?_⟩
    rw [hfinished h.2]
    exact h.2
  · exact trivial
  · obtain ⟨hforced, hstdout, hstderr⟩ := h
    refine ⟨hreason hforced, ?_, ?_⟩
    · unfold Returned
      rw [hfinished hstdout.1]
      exact hstdout
    · unfold Returned
      rw [hfinished hstderr.1]
      exact hstderr

/-- **A step of the caller** comes where its reason and its results are there. -/
theorem advance_stands {answer : Answer} {next : Wait} (h : Stands run s)
    (hnext : run.advance s answer = some next)
    (hkept : ∀ stream, Kept run.maximum_output_bytes (s.written stream) (s.closed stream)
      (s.reader stream)) : Stands run { s with wait := next } := by
  unfold Stands at h
  unfold Supervision.advance at hnext
  split at hnext
  · -- the first `try_wait` of a round
    split at hnext
    · rw [← Option.some.inj hnext]
      exact trivial
    · rw [← Option.some.inj hnext]
      exact trivial
  · -- the look at the note and at the clock
    by_cases hoverflow : (run.watches && s.overflow) = true
    · rw [if_pos hoverflow] at hnext
      rw [← Option.some.inj hnext]
      rw [Bool.and_eq_true] at hoverflow
      have hsome := hoverflow.2
      unfold State.overflow at hsome
      rw [Bool.or_eq_true] at hsome
      obtain hsome | hsome := hsome
      · exact ⟨.stdout, Nat.lt_of_lt_of_le ((hkept .stdout).overflow.mp hsome) (hkept .stdout).consumed⟩
      · exact ⟨.stderr, Nat.lt_of_lt_of_le ((hkept .stderr).overflow.mp hsome) (hkept .stderr).consumed⟩
    · rw [if_neg hoverflow] at hnext
      by_cases hlate : s.late = true
      · rw [if_pos hlate] at hnext
        rw [← Option.some.inj hnext]
        exact hlate
      · rw [if_neg hlate] at hnext
        rw [← Option.some.inj hnext]
        exact trivial
  · rename_i hwait
    rw [hwait] at h
    rw [← Option.some.inj hnext]
    exact h
  · rename_i hwait
    rw [hwait] at h
    split at hnext
    · rw [← Option.some.inj hnext]
      exact h
    · rw [← Option.some.inj hnext]
      exact h
  · rename_i hwait
    rw [hwait] at h
    rw [← Option.some.inj hnext]
    exact h
  · rename_i hwait
    rw [hwait] at h
    rw [← Option.some.inj hnext]
    exact h
  · rename_i hwait
    rw [hwait] at h
    rw [← Option.some.inj hnext]
    exact h
  · rename_i hwait
    rw [hwait] at h
    obtain ⟨status, -, hstatus⟩ := Option.map_eq_some_iff.mp hnext
    rw [← hstatus]
    exact h
  · -- the first `join`
    rename_i hwait
    rw [hwait] at h
    split at hnext
    · exact absurd hnext (by simp)
    · rw [← Option.some.inj hnext]
      exact trivial
    · rename_i hfinished
      rw [← Option.some.inj hnext]
      exact ⟨h, hfinished⟩
  · -- the second `join`
    rename_i hwait
    rw [hwait] at h
    split at hnext
    · exact absurd hnext (by simp)
    · rw [← Option.some.inj hnext]
      exact trivial
    · rename_i hfinished
      rw [← Option.some.inj hnext]
      exact ⟨h.1, ⟨h.2, rfl⟩, hfinished, rfl⟩
  all_goals first
    | (rw [← Option.some.inj hnext]; exact trivial)
    | exact absurd hnext (by simp)

/-- A step of a reader. -/
theorem reader_invariant (h : Invariant run s) (stream : Stream)
    (hruns : (s.reader stream).finished = none) {reader : Reader}
    (hkept : Kept run.maximum_output_bytes (s.written stream) (s.closed stream) reader) :
    Invariant run (s.set_reader stream reader) := by
  have hreader : ∀ other, (s.reader other).finished ≠ none →
      (s.set_reader stream reader).reader other = s.reader other := by
    intro other hfinished
    by_cases hother : other = stream
    · subst hother
      exact absurd hruns hfinished
    · exact Function.update_of_ne hother _ _
  refine ⟨fun other => ?_, @Stands.mono run s (s.set_reader stream reader) rfl
    (fun _ => Nat.le_refl _) id hreader h.stands⟩
  show Kept _ (s.written other) (s.closed other) (Function.update s.reader stream reader other)
  by_cases hother : other = stream
  · subst hother
    rw [Function.update_self]
    exact hkept
  · rw [Function.update_of_ne hother]
    exact h.kept other

/-- **Every step** keeps the invariant. -/
theorem step_invariant (h : Invariant run s) (hstep : Step run s s') : Invariant run s' := by
  have hsame : ∀ stream, (s.written stream).length ≤ (s.written stream).length := fun _ => Nat.le_refl _
  cases hstep with
  | write stream bytes hopen =>
    have hgrows (other : Stream) : (s.written other).length ≤
        (Function.update s.written stream (s.written stream ++ bytes) other).length := by
      by_cases hother : other = stream
      · subst hother
        rw [Function.update_self, List.length_append]
        omega
      · simp only [Function.update_of_ne hother, Nat.le_refl]
    refine ⟨fun other => ?_, h.stands.mono ?_ hgrows id fun _ _ => rfl⟩
    swap
    · rfl
    have hkept := h.kept other
    by_cases hother : other = stream
    · subst hother
      dsimp only
      rw [Function.update_self]
      rw [hopen] at hkept ⊢
      exact hkept.write bytes
    · dsimp only
      rw [Function.update_of_ne hother]
      exact hkept
  | close stream =>
    refine ⟨fun other => ?_, h.stands.mono ?_ hsame id fun _ _ => rfl⟩
    swap
    · rfl
    have hkept := h.kept other
    by_cases hother : other = stream
    · subst hother
      dsimp only
      rw [Function.update_self]
      exact hkept.close
    · dsimp only
      rw [Function.update_of_ne hother]
      exact hkept
  | exit status hruns =>
    refine ⟨h.kept, h.stands.mono ?_ hsame id fun _ _ => rfl⟩
    rfl
  | deadline =>
    refine ⟨h.kept, h.stands.mono ?_ hsame (fun _ => rfl) fun _ _ => rfl⟩
    rfl
  | read stream chunk hruns hsome hsize hfront =>
    exact reader_invariant h stream hruns ((h.kept stream).read hruns hfront)
  | finish stream hruns hclosed hall =>
    refine reader_invariant h stream hruns ?_
    obtain ⟨hconsumed, houtput, hoverflow, -⟩ := h.kept stream
    exact ⟨hconsumed, houtput, hoverflow, fun _ => ⟨hclosed, hall⟩⟩
  | fail stream error hruns =>
    refine reader_invariant h stream hruns ?_
    obtain ⟨hconsumed, houtput, hoverflow, -⟩ := h.kept stream
    exact ⟨hconsumed, houtput, hoverflow, fun heq => absurd heq (by simp)⟩
  | wait answer next hnext => exact ⟨h.kept, advance_stands h.stands hnext h.kept⟩

/-! ## Runs -/

theorem run_invariant {condition : State → Prop} (h : Run run condition s) : Invariant run s := by
  induction h with
  | start => exact start_invariant
  | step _ _ hstep ih => exact step_invariant ih hstep

/-- A stream has more than the run may return. -/
def Exceeds (run : Supervision) (s : State) : Prop :=
  ∃ stream, run.maximum_output_bytes < (s.written stream).length

/-- The streams of a result are all that was written. -/
def Complete (s : State) (stdout stderr : List UInt8) : Prop :=
  stdout = s.written .stdout ∧ stderr = s.written .stderr

/-- What a run of a program should come to, where it returns a result: the whole output unless
it is stopped, and no other end than the stop if there is too much output in time. -/
def Truthful (run : Supervision) (s : State) : Prop :=
  ∀ ended, s.wait = .returned (.ok ended) →
    ((program_result run ended).termination = .Exit ∨
        (program_result run ended).termination = .Signal →
      Complete s (program_result run ended).stdout (program_result run ended).stderr) ∧
    (Exceeds run s → s.late = false →
      (program_result run ended).termination = .OutputOverflow ∧
        (program_result run ended).exit_code = 125)

/-- The caller has not left the loop at its first `try_wait` while a stream has too much. -/
def NotOverlooked (run : Supervision) (s : State) : Prop :=
  ∀ status, s.wait = .join_stdout none status ∨ s.wait = .join_stderr none status → ¬Exceeds run s

/-- The results of the readers are the first bytes of the streams. -/
theorem returned_output {stream : Stream} {result : List UInt8 × Bool} (h : Invariant run s)
    (hresult : Returned s stream result) :
    result.1 = (s.written stream).take run.maximum_output_bytes ∧
      (result.2 = true ↔ run.maximum_output_bytes < (s.written stream).length) := by
  obtain ⟨hfinished, rfl⟩ := hresult
  exact (h.kept stream).complete hfinished

/-- **Complete output** is output that does not exceed the bound. -/
theorem returned_complete_iff {ended : Ended} (h : Invariant run s)
    (hwait : s.wait = .returned (.ok ended)) :
    Complete s ended.stdout.1 ended.stderr.1 ↔ ¬Exceeds run s := by
  have hstands := h.stands
  unfold Stands at hstands
  rw [hwait] at hstands
  obtain ⟨-, hstdout, hstderr⟩ := hstands
  unfold Complete
  rw [(returned_output h hstdout).1, (returned_output h hstderr).1, List.take_eq_self_iff,
    List.take_eq_self_iff]
  constructor
  · rintro ⟨hout, herr⟩ ⟨stream, hmore⟩
    cases stream with
    | stdout => omega
    | stderr => omega
  · intro hall
    exact ⟨Nat.le_of_not_lt fun hmore => hall ⟨.stdout, hmore⟩,
      Nat.le_of_not_lt fun hmore => hall ⟨.stderr, hmore⟩⟩

/-- **When a program run is truthful**: it was stopped, or nothing exceeded the bound. -/
theorem truthful_iff {ended : Ended} (h : Invariant run s)
    (hwait : s.wait = .returned (.ok ended)) :
    Truthful run s ↔ (ended.forced = none → ¬Exceeds run s) := by
  have hcomplete := returned_complete_iff h hwait
  have hreason : Reason run s ended.forced := by
    have hstands := h.stands
    unfold Stands at hstands
    rw [hwait] at hstands
    exact hstands.1
  constructor
  · intro htruthful hforced
    obtain ⟨hall, -⟩ := htruthful ended hwait
    apply hcomplete.mp
    apply hall
    show program_termination ended = .Exit ∨ program_termination ended = .Signal
    unfold program_termination
    rw [hforced]
    dsimp only
    by_cases hsignal : ended.status.signal?.isSome = true
    · rw [if_pos hsignal]
      exact .inr rfl
    · rw [if_neg hsignal]
      exact .inl rfl
  · intro hexact ended' hwait'
    have hsame : ended' = ended := by
      rw [hwait] at hwait'
      exact (Except.ok.inj (Wait.returned.inj hwait')).symm
    subst hsame
    have hexit : program_termination ended' = .Exit ∨ program_termination ended' = .Signal →
        ended'.forced = none := by
      unfold program_termination
      split <;> simp_all
    cases hforced : ended'.forced with
    | none =>
      have hnone := hexact hforced
      exact ⟨fun _ => hcomplete.mpr hnone, fun hexceeds => absurd hexceeds hnone⟩
    | some forced =>
      refine ⟨fun hend => absurd (hforced.symm.trans (hexit hend)) (by simp), fun _ hlate => ?_⟩
      cases forced with
      | Timeout =>
        rw [hforced] at hreason
        exact absurd (hlate.symm.trans hreason) (by simp)
      | OutputOverflow =>
        have htermination : program_termination ended' = .OutputOverflow := by
          unfold program_termination
          rw [hforced]
        refine ⟨htermination, ?_⟩
        show program_exit_code ended' = 125
        unfold program_exit_code
        rw [htermination]

/-- The step with which the caller returns is the second `join`. -/
theorem advance_returned {answer : Answer} {ended : Ended}
    (hnext : run.advance s answer = some (.returned (.ok ended))) :
    s.wait = .join_stderr ended.forced ended.status := by
  unfold Supervision.advance at hnext
  split at hnext
  case h_1 => split at hnext <;> simp at hnext
  case h_2 =>
    split at hnext
    · simp at hnext
    · split at hnext <;> simp at hnext
  case h_4 => split at hnext <;> simp at hnext
  case h_8 => simp at hnext
  case h_9 => split at hnext <;> simp at hnext
  case h_10 hwait =>
    split at hnext
    · simp at hnext
    · simp at hnext
    · rw [hwait, ← Except.ok.inj (Wait.returned.inj (Option.some.inj hnext))]
  all_goals simp at hnext

/-- When the caller has both results, both pipes are closed. -/
theorem returned_closed {ended : Ended} (h : Invariant run s)
    (hwait : s.wait = .returned (.ok ended)) (stream : Stream) : s.closed stream = true := by
  have hstands := h.stands
  unfold Stands at hstands
  rw [hwait] at hstands
  apply And.left
  apply (h.kept stream).finished
  cases stream with
  | stdout => exact hstands.2.1.1
  | stderr => exact hstands.2.2.1

/-- A caller that has returned has left its second `join`, and nothing was written since. -/
theorem returned_from_join {condition : State → Prop} (h : Run run condition s) {ended : Ended}
    (hwait : s.wait = .returned (.ok ended)) :
    ∃ before, condition before ∧ before.wait = .join_stderr ended.forced ended.status ∧
      before.written = s.written := by
  induction h with
  | start => exact absurd hwait (by simp [start])
  | @step s s' hrun hcondition hstep ih =>
    cases hstep with
    | write stream bytes hopen =>
      have hclosed := returned_closed (run_invariant hrun) hwait stream
      rw [hopen] at hclosed
      exact absurd hclosed (by simp)
    | wait answer next hnext =>
      have hwait : next = .returned (.ok ended) := hwait
      rw [hwait] at hnext
      exact ⟨s, hcondition, advance_returned hnext, rfl⟩
    | close => exact ih hwait
    | exit => exact ih hwait
    | deadline => exact ih hwait
    | read => exact ih hwait
    | finish => exact ih hwait
    | fail => exact ih hwait

/-! ## Both runners -/

/-- An accepted Lake build has kept within its bound. -/
theorem lake_result_ok {ended : Ended} {result : BuildResultV1}
    (hresult : lake_result run ended = .ok result) :
    result.stdout = ended.stdout.1 ∧ result.stderr = ended.stderr.1 ∧
      ended.stdout.2 = false ∧ ended.stderr.2 = false := by
  unfold lake_result at hresult
  dsimp only at hresult
  by_cases hoverflow : (ended.stdout.2 || ended.stderr.2) = true
  · rw [if_pos hoverflow] at hresult
    exact absurd hresult (by simp)
  · rw [if_neg hoverflow] at hresult
    rw [Bool.or_eq_true, not_or, Bool.not_eq_true, Bool.not_eq_true] at hoverflow
    split at hresult
    · exact absurd hresult (by simp)
    split at hresult
    · exact absurd hresult (by simp)
    split at hresult
    · exact absurd hresult (by simp)
    · rw [← Except.ok.inj hresult]
      exact ⟨rfl, rfl, hoverflow⟩

/-- **Truncated output.** A run of a program whose caller has not overlooked that there is too
much says what happened: an end of the program comes with the whole output, and an output that
exceeds the bound before the deadline is reported as such. What a caller has returned is right
exactly if it has stopped the process or nothing exceeds the bound. An accepted Lake build has
the whole output in every run. -/
theorem supervised_output (run : Supervision) :
    (run.watches = true → ∀ s, Run run (NotOverlooked run) s → Truthful run s) ∧
    (∀ s, Run run (fun _ => True) s → ∀ ended, s.wait = .returned (.ok ended) →
      (Truthful run s ↔ (ended.forced = none → ¬Exceeds run s))) ∧
    ∀ s, Run run (fun _ => True) s → ∀ ended result, s.wait = .returned (.ok ended) →
      lake_result run ended = .ok result → Complete s result.stdout result.stderr := by
  refine ⟨fun _ s hrun => ?_, fun s hrun ended hwait => truthful_iff (run_invariant hrun) hwait,
    fun s hrun ended result hwait hresult => ?_⟩
  · intro ended hwait
    obtain ⟨before, hcondition, hjoin, hwritten⟩ := returned_from_join hrun hwait
    refine (truthful_iff (run_invariant hrun) hwait).mpr (fun hforced => ?_) ended hwait
    rw [hforced] at hjoin
    have hnone := hcondition ended.status (.inr hjoin)
    unfold Exceeds at hnone ⊢
    rwa [hwritten] at hnone
  · have hinvariant := run_invariant hrun
    obtain ⟨hout, herr, hstdout, hstderr⟩ := lake_result_ok hresult
    rw [hout, herr]
    apply (returned_complete_iff hinvariant hwait).mpr
    have hstands := hinvariant.stands
    unfold Stands at hstands
    rw [hwait] at hstands
    have hstdout' := (returned_output hinvariant hstands.2.1).2
    have hstderr' := (returned_output hinvariant hstands.2.2).2
    rintro ⟨stream, hmore⟩
    cases stream with
    | stdout => exact absurd (hstdout'.mpr hmore) (by simp [hstdout])
    | stderr => exact absurd (hstderr'.mpr hmore) (by simp [hstderr])

/-- A program with a bound of 1024 bytes. -/
def sample_run : Supervision := ⟨1024, true, 7⟩

/-- One byte more than it may write. -/
def sample_output : List UInt8 := List.replicate 1025 0

/-- **An overlooked overflow.** The program writes its bytes and exits before the first
`try_wait`: the caller leaves its loop, and never looks at the note which the reader makes. -/
theorem overflow_overlooked : ∃ s ended, Run sample_run (fun _ => True) s ∧
    s.wait = .returned (.ok ended) ∧ s.late = false ∧ s.written .stdout = sample_output ∧
    (program_result sample_run ended).termination = .Exit ∧
    (program_result sample_run ended).exit_code = 0 ∧
    (program_result sample_run ended).stdout.length = 1024 ∧ Exceeds sample_run s ∧
    ¬Truthful sample_run s := by
  have hlength : sample_output.length = 1025 := List.length_replicate
  generalize sample_output = output at hlength ⊢
  have next {s s' : State} (h : Run sample_run (fun _ => True) s) (hstep : Step sample_run s s') :
      Run sample_run (fun _ => True) s' := .step h trivial hstep
  have hwrite := next .start (.write .stdout output rfl)
  have hexit := next hwrite (.exit (.code 0) rfl)
  have hclose := next (next hexit (.close .stdout)) (.close .stderr)
  -- the first `try_wait` already finds the end
  have hpoll := next hclose (.wait .fine (.join_stdout none (.code 0)) rfl)
  have hread := next hpoll (.read .stdout output rfl
    (List.ne_nil_of_length_eq_add_one hlength) (by unfold chunk_size; omega)
    (List.prefix_refl output))
  have hout := next hread (.finish .stdout rfl rfl (by
    show 0 + output.length = ([] ++ output).length
    rw [Nat.zero_add, List.nil_append]))
  have herr := next hout (.finish .stderr rfl rfl rfl)
  have hjoin := next herr (.wait .fine (.join_stderr none (.code 0)) rfl)
  have hreturn := next hjoin (.wait .fine _ rfl)
  refine ⟨_, _, hreturn, rfl, rfl, rfl, rfl, rfl, ?_, ?_, ?_⟩
  · show ([] ++ output.take (min output.length (1024 - 0))).length = 1024
    rw [List.nil_append, List.length_take, hlength]
    rfl
  · refine ⟨.stdout, ?_⟩
    show 1024 < output.length
    omega
  · intro htruthful
    obtain ⟨-, hoverflow⟩ := htruthful _ rfl
    have hmore : 1024 < output.length := by omega
    have hreported : ProgramTerminationReasonV1.Exit = .OutputOverflow :=
      (hoverflow ⟨.stdout, hmore⟩ rfl).1
    exact absurd hreported (by decide)

end LeanBun.Build.Supervised
