/-
Reading the response to an approval challenge.

The response is read through the buffer of the standard input into a window that has room for
the confirmation and two bytes more. Reading stops at a newline, and the bytes in the window
pass if they are the confirmation, a newline and nothing else, while the terminal has nothing
queued.

Whether bytes can hide in the buffer is a matter of the last read. It took less than there was
room for if the response is exact, and such a read leaves nothing in the buffer.
-/
import LeanBun.Codec.Scan
import LeanBun.Core.Sha256
import LeanBun.Lib.Check

set_option autoImplicit false

namespace LeanBun.Approval.Response

open LeanBun.Lib LeanBun.Core
open LeanBun.Codec (byte byte_lt byte_injective utf8_of_le utf8_of_gt)

/-! ## Errors -/

/-- `MacOsApprovalResponseRejectionV1`. -/
inductive MacOsApprovalResponseRejectionV1 where
  | ChallengeNotPresented
  | ChallengeExpired
  | TerminalChanged
  | InputFailed
  | EndOfFile
  | ResponseTooLong
  | MissingNewline
  | InvalidUtf8
  | ResponseMismatch
  | ExtraInput
  | QueueInspectionFailed
deriving DecidableEq

/-- `MacOsApprovalResponseError`. -/
structure MacOsApprovalResponseError where
  rejection : MacOsApprovalResponseRejectionV1
  message : String
deriving DecidableEq

abbrev ResponseResult := Except MacOsApprovalResponseError

def response_error (rejection : MacOsApprovalResponseRejectionV1) (message : String) :
    MacOsApprovalResponseError := ⟨rejection, message⟩

/-! ## The standard input -/

/-- The capacity of the buffer of `io::stdin()`. -/
def stdin_capacity : ℕ := 8 * 1024

/-- The bytes that one `read(2)` of the buffer gets from the terminal. -/
structure Chunk where
  bytes : List UInt8
  nonempty : bytes ≠ []
  fits : bytes.length ≤ stdin_capacity
deriving DecidableEq

/-- What the next `read(2)` gives. -/
inductive Arrival where
  | chunk (piece : Chunk)
  | end_of_file
  | failed (message : String)
deriving DecidableEq

def Arrival.bytes : Arrival → List UInt8
  | .chunk piece => piece.bytes
  | .end_of_file => []
  | .failed _ => []

/-- The standard input: the bytes in its buffer that have not been read, and what arrives. -/
structure Stdin where
  buffered : List UInt8
  arrivals : List Arrival
deriving DecidableEq

/-- `BufReader::read`. It fills the buffer if that is empty, and gives as much of it as there is
room for. Without an arrival it waits. A read with room for a whole buffer goes past it, which
gives the same. -/
def Stdin.read (stdin : Stdin) (room : ℕ) : Option (Except String (List UInt8) × Stdin) :=
  if stdin.buffered = [] then
    match stdin.arrivals with
    | [] => none
    | .failed message :: arrivals => some (.error message, ⟨[], arrivals⟩)
    | arrival :: arrivals => some (.ok (arrival.bytes.take room), ⟨arrival.bytes.drop room, arrivals⟩)
  else some (.ok (stdin.buffered.take room), ⟨stdin.buffered.drop room, stdin.arrivals⟩)

/-! ## The loop -/

def newline : UInt8 := 0x0a

/-- How the loop has ended: at a newline with the bytes in the window, with an error, in a
`read` that has not returned, or with no round left. -/
inductive Ending where
  | line (window : List UInt8)
  | refused (error : MacOsApprovalResponseError)
  | waiting
  | exhausted
deriving DecidableEq

/-- The loop of `read_bounded_exact_response_from_current_terminal_v1`, for some rounds. `used`
are the bytes in the window, which has room for `size`. -/
def read_loop (size : ℕ) : ℕ → Stdin → List UInt8 → Ending × Stdin
  | 0, stdin, _ => (.exhausted, stdin)
  | rounds + 1, stdin, used =>
    if used.length = size then
      (.refused (response_error .ResponseTooLong
        "approval response exceeded the exact confirmation bound"), stdin)
    else
      match stdin.read (size - used.length) with
      | none => (.waiting, stdin)
      | some (.error message, stdin) =>
        (.refused (response_error .InputFailed ("cannot read approval response: " ++ message)), stdin)
      | some (.ok bytes, stdin) =>
        if bytes = [] then
          (.refused (response_error .EndOfFile "approval response ended before a newline"), stdin)
        else if newline ∈ used ++ bytes then (.line (used ++ bytes), stdin)
        else read_loop size rounds stdin (used ++ bytes)

/-- The size of the window. -/
def window_size (expected : List UInt8) : ℕ := expected.length + 2

/-- The loop from its start. Every round fills some of the window, so that these rounds are
enough. -/
def read_window (expected : List UInt8) (stdin : Stdin) : Ending × Stdin :=
  read_loop (window_size expected) (window_size expected + 1) stdin []

/-! ## The check -/

/-- `validate_response_bytes_v1`. -/
def validate_response_bytes_v1 (bytes expected : List UInt8) (queued_bytes : ℕ) :
    ResponseResult Str := do
  let _ ← ensure (newline ∈ bytes)
    (response_error .MissingNewline "approval response must end with one newline")
  let front := bytes.takeWhile fun byte => byte ≠ newline
  let _ ← ensure (front.length + 1 = bytes.length ∧ queued_bytes = 0)
    (response_error .ExtraInput
      "approval response contains or queues input after the first newline")
  match from_utf8 front with
  | none => .error (response_error .InvalidUtf8 "approval response is not valid UTF-8")
  | some response => do
    let _ ← ensure (as_bytes response = expected)
      (response_error .ResponseMismatch
        "approval response does not exactly equal the presented confirmation")
    return response

/-- The reading and the check, with what the inspection of the queue gives after the loop;
nothing while a `read` waits. -/
def exact_response (expected : List UInt8) (stdin : Stdin) (queue : Except String ℕ) :
    Option (ResponseResult Str) :=
  match (read_window expected stdin).1 with
  | .waiting => none
  | .exhausted => none
  | .refused error => some (.error error)
  | .line window =>
    match queue with
    | .error message => some (.error (response_error .QueueInspectionFailed
        ("cannot inspect queued terminal input: " ++ message)))
    | .ok queued => some (validate_response_bytes_v1 window expected queued)

/-! ## What has been delivered -/

/-- The bytes that the standard input has got hold of between two moments, with those that it
had before. -/
def delivered (start stdin : Stdin) : List UInt8 :=
  start.buffered ++
    (start.arrivals.take (start.arrivals.length - stdin.arrivals.length)).flatMap Arrival.bytes

/-- The delivered bytes are those in the window and those in the buffer. -/
structure Took (start stdin : Stdin) (used : List UInt8) : Prop where
  split : ∃ gone, start.arrivals = gone ++ stdin.arrivals ∧
    start.buffered ++ gone.flatMap Arrival.bytes = used ++ stdin.buffered

theorem Took.start (stdin : Stdin) : Took stdin stdin [] :=
  ⟨[], rfl, by rw [List.flatMap_nil, List.append_nil, List.nil_append]⟩

theorem Took.delivered {start stdin : Stdin} {used : List UInt8} (h : Took start stdin used) :
    delivered start stdin = used ++ stdin.buffered := by
  obtain ⟨gone, harrivals, hbytes⟩ := h.split
  unfold Response.delivered
  have hcount : start.arrivals.length - stdin.arrivals.length = gone.length := by
    rw [harrivals, List.length_append]
    omega
  rw [hcount, harrivals, List.take_left, hbytes]

variable {start stdin stdin' : Stdin} {used bytes : List UInt8} {room size rounds : ℕ}

/-- **One read** moves bytes to the window. If it leaves room there, the buffer is empty. -/
theorem Took.read (h : Took start stdin used) (hread : stdin.read room = some (.ok bytes, stdin')) :
    Took start stdin' (used ++ bytes) ∧ bytes.length ≤ room ∧
      (bytes.length < room → stdin'.buffered = []) := by
  obtain ⟨gone, harrivals, hbytes⟩ := h.split
  have hdrop (found : List UInt8) (hshort : (found.take room).length < room) :
      found.drop room = [] := by
    rw [List.length_take] at hshort
    exact List.drop_eq_nil_of_le (by omega)
  unfold Stdin.read at hread
  by_cases hbuffered : stdin.buffered = []
  · rw [if_pos hbuffered] at hread
    rw [hbuffered, List.append_nil] at hbytes
    split at hread
    · exact absurd hread (by simp)
    · exact absurd hread (by simp)
    · rename_i arrival arrivals _ hnext
      obtain ⟨hok, rfl⟩ := Prod.mk.inj (Option.some.inj hread)
      rw [← Except.ok.inj hok]
      refine ⟨⟨gone ++ [arrival], ?_, ?_⟩, List.length_take_le _ _, hdrop _⟩
      · rw [harrivals, hnext, List.append_assoc]
        rfl
      · rw [List.flatMap_append, ← List.append_assoc, hbytes, List.append_assoc,
          List.take_append_drop, List.flatMap_singleton]
  · rw [if_neg hbuffered] at hread
    obtain ⟨hok, rfl⟩ := Prod.mk.inj (Option.some.inj hread)
    rw [← Except.ok.inj hok]
    refine ⟨⟨gone, harrivals, ?_⟩, List.length_take_le _ _, hdrop _⟩
    rw [hbytes, List.append_assoc, List.take_append_drop]

/-- A read that fails has found the buffer empty. -/
theorem Took.failed {message : String} (h : Took start stdin used)
    (hread : stdin.read room = some (.error message, stdin')) :
    Took start stdin' used ∧ stdin'.buffered = [] := by
  obtain ⟨gone, harrivals, hbytes⟩ := h.split
  unfold Stdin.read at hread
  by_cases hbuffered : stdin.buffered = []
  · rw [if_pos hbuffered] at hread
    split at hread
    · exact absurd hread (by simp)
    · rename_i failure arrivals hnext
      obtain ⟨-, rfl⟩ := Prod.mk.inj (Option.some.inj hread)
      refine ⟨⟨gone ++ [.failed failure], ?_, ?_⟩, rfl⟩
      · rw [harrivals, hnext, List.append_assoc]
        rfl
      · rw [hbuffered] at hbytes
        rw [List.flatMap_append, ← List.append_assoc, hbytes]
        exact List.append_nil _
    · exact absurd hread (by simp)
  · rw [if_neg hbuffered] at hread
    exact absurd hread (by simp)

/-- A read waits only for a next arrival. -/
theorem read_none (hread : stdin.read room = none) :
    stdin.buffered = [] ∧ stdin.arrivals = [] := by
  unfold Stdin.read at hread
  by_cases hbuffered : stdin.buffered = []
  · refine ⟨hbuffered, ?_⟩
    rw [if_pos hbuffered] at hread
    split at hread
    · assumption
    · exact absurd hread (by simp)
    · exact absurd hread (by simp)
  · rw [if_neg hbuffered] at hread
    exact absurd hread (by simp)

/-- A read uses up one arrival at most. -/
theorem read_arrivals {result : Except String (List UInt8)}
    (hread : stdin.read room = some (result, stdin')) :
    stdin.arrivals.length ≤ stdin'.arrivals.length + 1 := by
  unfold Stdin.read at hread
  by_cases hbuffered : stdin.buffered = []
  · rw [if_pos hbuffered] at hread
    split at hread
    · exact absurd hread (by simp)
    · rename_i hnext
      rw [← (Prod.mk.inj (Option.some.inj hread)).2, hnext]
      exact Nat.le_refl _
    · rename_i hnext
      rw [← (Prod.mk.inj (Option.some.inj hread)).2, hnext]
      exact Nat.le_refl _
  · rw [if_neg hbuffered] at hread
    rw [← (Prod.mk.inj (Option.some.inj hread)).2]
    exact Nat.le_succ _

/-! ## Runs of the loop -/

/-- What is known when the loop has ended. -/
def Ended (start : Stdin) (size : ℕ) (ending : Ending) (stdin : Stdin) : Prop :=
  match ending with
  | .line window => newline ∈ window ∧ window.length ≤ size ∧ Took start stdin window ∧
      (window.length < size → stdin.buffered = [])
  | .exhausted => False
  | _ => ∃ used, newline ∉ used ∧ used.length ≤ size ∧ Took start stdin used ∧
      (used.length < size → stdin.buffered = [])

/-- **The loop ends** with at most as many bytes as the window has room for. -/
theorem read_loop_ended (htook : Took start stdin used) (hused : newline ∉ used)
    (hsize : used.length ≤ size) (hrounds : size < rounds + used.length) :
    Ended start size (read_loop size rounds stdin used).1 (read_loop size rounds stdin used).2 := by
  induction rounds generalizing stdin used with
  | zero => omega
  | succ rounds ih =>
    unfold read_loop
    by_cases hfull : used.length = size
    · rw [if_pos hfull]
      exact ⟨used, hused, hsize, htook, fun hshort => by omega⟩
    rw [if_neg hfull]
    cases hread : stdin.read (size - used.length) with
    | none => exact ⟨used, hused, hsize, htook, fun _ => (read_none hread).1⟩
    | some result =>
      obtain ⟨outcome, next⟩ := result
      cases outcome with
      | error message =>
        obtain ⟨htook', hempty⟩ := htook.failed hread
        exact ⟨used, hused, hsize, htook', fun _ => hempty⟩
      | ok bytes =>
        obtain ⟨htook', hlength, hempty⟩ := htook.read hread
        dsimp only
        by_cases hnil : bytes = []
        · rw [if_pos hnil]
          subst hnil
          rw [List.append_nil] at htook'
          refine ⟨used, hused, hsize, htook', fun _ => hempty ?_⟩
          rw [List.length_nil]
          omega
        rw [if_neg hnil]
        have hpos := List.length_pos_of_ne_nil hnil
        have hsize' : (used ++ bytes).length ≤ size := by
          rw [List.length_append]
          omega
        by_cases hline : newline ∈ used ++ bytes
        · rw [if_pos hline]
          refine ⟨hline, hsize', htook', fun hshort => hempty ?_⟩
          rw [List.length_append] at hshort
          omega
        · rw [if_neg hline]
          apply ih htook' hline hsize'
          rw [List.length_append]
          omega

/-- A loop that waits has used up all arrivals, one in a round. -/
theorem read_loop_waiting (h : (read_loop size rounds stdin used).1 = .waiting) :
    stdin.arrivals.length < rounds := by
  induction rounds generalizing stdin used with
  | zero => exact absurd h (by simp [read_loop])
  | succ rounds ih =>
    unfold read_loop at h
    by_cases hfull : used.length = size
    · rw [if_pos hfull] at h
      exact absurd h (by simp)
    rw [if_neg hfull] at h
    cases hread : stdin.read (size - used.length) with
    | none =>
      rw [(read_none hread).2]
      exact Nat.succ_pos _
    | some result =>
      obtain ⟨outcome, next⟩ := result
      have harrivals := read_arrivals hread
      rw [hread] at h
      cases outcome with
      | error message => exact absurd h (by simp)
      | ok bytes =>
        dsimp only at h
        by_cases hnil : bytes = []
        · rw [if_pos hnil] at h
          exact absurd h (by simp)
        rw [if_neg hnil] at h
        by_cases hline : newline ∈ used ++ bytes
        · rw [if_pos hline] at h
          exact absurd h (by simp)
        · rw [if_neg hline] at h
          have := ih h
          omega

theorem read_window_ended (expected : List UInt8) (stdin : Stdin) :
    Ended stdin (window_size expected) (read_window expected stdin).1
      (read_window expected stdin).2 := by
  apply read_loop_ended (Took.start stdin) (by simp) (Nat.zero_le _)
  rw [List.length_nil]
  omega

/-! ## Exact responses -/

/-- A newline is in a text if its byte is in the bytes. -/
theorem newline_mem {text : Str} (h : newline ∈ as_bytes text) : '\n' ∈ text := by
  obtain ⟨c, hc, hbyte⟩ := List.mem_flatMap.mp h
  have hnewline : newline = byte '\n' := rfl
  by_cases hascii : c.toNat ≤ 127
  · rw [utf8_of_le hascii, List.mem_singleton, hnewline] at hbyte
    rw [byte_injective (by decide) hascii hbyte]
    exact hc
  · have hhigh := utf8_of_gt (Nat.lt_of_not_le hascii) newline hbyte
    exact absurd hhigh (byte_lt (c := '\n') (by decide))

/-- What stands before the first newline, if nothing stands behind it. -/
theorem takeWhile_line {bytes : List UInt8} (hline : newline ∈ bytes)
    (hlast : (bytes.takeWhile fun byte => byte ≠ newline).length + 1 = bytes.length) :
    bytes = (bytes.takeWhile fun byte => byte ≠ newline) ++ [newline] := by
  have hsplit := List.takeWhile_append_dropWhile (p := fun byte => decide (byte ≠ newline)) (l := bytes)
  have hlength := congrArg List.length hsplit
  rw [List.length_append] at hlength
  have hrest : (bytes.dropWhile fun byte => byte ≠ newline).length = 1 := by omega
  obtain ⟨last, hlast'⟩ := List.length_eq_one_iff.mp hrest
  rw [hlast'] at hsplit
  have hnewline : last = newline := by
    by_contra hne
    rw [← hsplit, List.mem_append, List.mem_singleton] at hline
    obtain hfront | hother := hline
    · have htest := List.mem_takeWhile_imp hfront
      exact absurd rfl (of_decide_eq_true htest)
    · exact hne hother.symm
  rw [hnewline] at hsplit
  exact hsplit.symm

/-- **The check** passes exactly one sequence of bytes. -/
theorem validate_eq_ok {window : List UInt8} {confirmation response : Str} {queued : ℕ}
    (hconfirmation : '\n' ∉ confirmation) :
    validate_response_bytes_v1 window (as_bytes confirmation) queued = .ok response ↔
      window = as_bytes confirmation ++ [newline] ∧ queued = 0 ∧ response = confirmation := by
  have hplain : newline ∉ as_bytes confirmation := fun hmem => hconfirmation (newline_mem hmem)
  unfold validate_response_bytes_v1
  constructor
  · intro h
    obtain ⟨hline, -, h⟩ := bind_eq_ok.mp h
    obtain ⟨hextra, -, h⟩ := bind_eq_ok.mp h
    obtain ⟨hlast, hqueued⟩ := hextra.down
    have hwindow := takeWhile_line hline.down hlast
    split at h
    · exact absurd h (by simp)
    · rename_i text htext
      obtain ⟨hsame, -, h⟩ := bind_eq_ok.mp h
      have hbytes := from_utf8_eq_some.mp htext
      rw [hbytes, hsame.down] at hwindow
      rw [← Except.ok.inj h]
      exact ⟨hwindow, hqueued, as_bytes_injective hsame.down⟩
  · rintro ⟨rfl, rfl, rfl⟩
    have hfront : (as_bytes response ++ [newline]).takeWhile (fun byte => byte ≠ newline) =
        as_bytes response := by
      rw [List.takeWhile_append_of_pos, List.takeWhile_cons_of_neg (by simp), List.append_nil]
      intro byte hbyte
      exact decide_eq_true fun heq => hplain (heq ▸ hbyte)
    have hlast : (as_bytes response).length + 1 = (as_bytes response ++ [newline]).length := by
      rw [List.length_append, List.length_singleton]
    rw [ensure_ok (List.mem_append_right _ (List.mem_singleton_self _)), hfront]
    show (ensure ((as_bytes response).length + 1 = (as_bytes response ++ [newline]).length ∧ 0 = 0)
      _ >>= _) = _
    rw [ensure_ok ⟨hlast, rfl⟩, from_utf8_as_bytes]
    show (ensure (as_bytes response = as_bytes response) _ >>= _) = _
    rw [ensure_ok rfl]
    rfl

/-- What is delivered when the loop has ended, if it is an exact response. -/
theorem ended_exact {ending : Ending} {expected : List UInt8} (hplain : newline ∉ expected)
    (hended : Ended start (window_size expected) ending stdin) :
    delivered start stdin = expected ++ [newline] ↔ ending = .line (expected ++ [newline]) := by
  have hsize : window_size expected = expected.length + 2 := rfl
  have hlength : (expected ++ [newline]).length = expected.length + 1 := by
    rw [List.length_append, List.length_singleton]
  -- an ending without a newline has not got as far, or further
  have hother : (∃ used, newline ∉ used ∧ used.length ≤ window_size expected ∧
      Took start stdin used ∧ (used.length < window_size expected → stdin.buffered = [])) →
        delivered start stdin ≠ expected ++ [newline] := by
    rintro ⟨used, hused, hle, htook, hempty⟩ hdelivered
    rw [htook.delivered] at hdelivered
    by_cases hshort : used.length < window_size expected
    · rw [hempty hshort, List.append_nil] at hdelivered
      rw [hdelivered] at hused
      exact hused (List.mem_append_right _ (List.mem_singleton_self _))
    · have := congrArg List.length hdelivered
      rw [List.length_append, hlength] at this
      omega
  cases ending with
  | exhausted => exact absurd hended id
  | waiting => exact iff_of_false (hother hended) (by simp)
  | refused error => exact iff_of_false (hother hended) (by simp)
  | line window =>
    obtain ⟨hline, -, htook, hempty⟩ := hended
    rw [htook.delivered, Ending.line.injEq]
    constructor
    · intro h
      -- the newline of the window is the last byte
      obtain ⟨extra, hexpected, -⟩ | ⟨extra, hwindow, hlast⟩ := List.append_eq_append_iff.mp h
      · rw [hexpected] at hplain
        exact absurd (List.mem_append_left _ hline) hplain
      · by_cases hnil : extra = []
        · rw [hwindow, hnil, List.append_nil] at hline
          exact absurd hline hplain
        · have hcount := congrArg List.length hlast
          rw [List.length_append, List.length_singleton] at hcount
          have hpos := List.length_pos_of_ne_nil hnil
          have hrest : stdin.buffered = [] := List.eq_nil_of_length_eq_zero (by omega)
          rw [hrest, List.append_nil] at hlast
          rw [hwindow, hlast]
    · rintro rfl
      rw [hempty (by omega), List.append_nil]

/-! ## The whole reader -/

/-- `TrustedTerminalBindingV1`. -/
structure TrustedTerminalBindingV1 where
  device : ℕ
  inode : ℕ
  raw_device : ℕ
  owner_uid : ℕ
  effective_user_id : ℕ
  process_group_id : ℤ
  process_session_id : ℤ
deriving DecidableEq

/-- `LakeCommandTrustedApprovalChallengeV1`, as far as the reader uses it. -/
structure LakeCommandTrustedApprovalChallengeV1 where
  challenge_id : Sha256
  request_id : Sha256
  preflight_sha256 : Sha256
  confirmation : Str
  issued_at_unix_ms : ℕ
  expires_at_unix_ms : ℕ

/-- The confirmation that `lake_command_trusted_approval_challenge_v1` asks for. -/
def challenge_confirmation (request_id preflight_sha256 challenge_id : Sha256) : Str :=
  "approve:".toList ++ (request_id.to_string ++ (':' :: (preflight_sha256.to_string ++
    (':' :: challenge_id.to_string))))

/-- `LakeCommandApprovalPresentationV1`, as far as the reader uses it. -/
structure LakeCommandApprovalPresentationV1 where
  terminal_binding : TrustedTerminalBindingV1
  challenge : LakeCommandTrustedApprovalChallengeV1
  presented : Bool

/-- `LakeCommandApprovalResponseClaimV1`. -/
structure LakeCommandApprovalResponseClaimV1 where
  challenge_id : Sha256
  request_id : Sha256
  preflight_sha256 : Sha256
  response_sha256 : Sha256
  terminal_binding : TrustedTerminalBindingV1
  responded_at_unix_ms : ℕ
  challenge_expires_at_unix_ms : ℕ

/-- The clock and the terminal, before the reading or after it. -/
structure Moment where
  time : Except String ℕ
  binding : Except String TrustedTerminalBindingV1

/-- `response_time_v1`. -/
def response_time_v1 (moment : Moment) : ResponseResult ℕ :=
  moment.time.mapError (response_error .ChallengeExpired)

/-- `verify_current_binding_for_response`. -/
def verify_current_binding_for_response (presentation : LakeCommandApprovalPresentationV1)
    (moment : Moment) : ResponseResult Unit := do
  let current ← moment.binding.mapError (response_error .TerminalChanged)
  let _ ← ensure (current = presentation.terminal_binding)
    (response_error .TerminalChanged "terminal identity changed before or during response input")
  return ()

/-- The time is in the window of the challenge. -/
def in_window (challenge : LakeCommandTrustedApprovalChallengeV1) (now : ℕ) : Prop :=
  challenge.issued_at_unix_ms ≤ now ∧ now < challenge.expires_at_unix_ms

instance (challenge : LakeCommandTrustedApprovalChallengeV1) (now : ℕ) :
    Decidable (in_window challenge now) := inferInstanceAs (Decidable (_ ∧ _))

/-- The checks before the reading. -/
def before_reading (presentation : LakeCommandApprovalPresentationV1) (moment : Moment) :
    ResponseResult Unit := do
  let _ ← ensure (presentation.presented = true) (response_error .ChallengeNotPresented
    "approval response cannot be read before challenge presentation")
  let now ← response_time_v1 moment
  let _ ← ensure (in_window presentation.challenge now) (response_error .ChallengeExpired
    "approval challenge is outside its response window")
  verify_current_binding_for_response presentation moment
  let length := byte_len presentation.challenge.confirmation
  let _ ← ensure (0 < length ∧ length ≤ 256) (response_error .ResponseTooLong
    "approval confirmation exceeds the bounded reader contract")
  return ()

/-- What follows the reading. -/
def after_reading (presentation : LakeCommandApprovalPresentationV1) (moment : Moment)
    (response : Str) : ResponseResult LakeCommandApprovalResponseClaimV1 := do
  verify_current_binding_for_response presentation moment
  let responded_at_unix_ms ← response_time_v1 moment
  let _ ← ensure (in_window presentation.challenge responded_at_unix_ms)
    (response_error .ChallengeExpired "approval challenge expired while reading the response")
  return {
    challenge_id := presentation.challenge.challenge_id
    request_id := presentation.challenge.request_id
    preflight_sha256 := presentation.challenge.preflight_sha256
    response_sha256 := digest (as_bytes response)
    terminal_binding := presentation.terminal_binding
    responded_at_unix_ms := responded_at_unix_ms
    challenge_expires_at_unix_ms := presentation.challenge.expires_at_unix_ms }

/-- `read_bounded_exact_response_from_current_terminal_v1`; nothing while a `read` waits. -/
def read_bounded_exact_response_from_current_terminal_v1
    (presentation : LakeCommandApprovalPresentationV1) (before after : Moment) (stdin : Stdin)
    (queue : Except String ℕ) : Option (ResponseResult LakeCommandApprovalResponseClaimV1) :=
  match before_reading presentation before with
  | .error e => some (.error e)
  | .ok () =>
    (exact_response (as_bytes presentation.challenge.confirmation) stdin queue).map fun result =>
      result >>= after_reading presentation after

/-- **A claim is made** of an exact response only. -/
theorem claim_of_exact_response {presentation : LakeCommandApprovalPresentationV1}
    {before after : Moment} {queue : Except String ℕ} {claim : LakeCommandApprovalResponseClaimV1}
    (h : read_bounded_exact_response_from_current_terminal_v1 presentation before after stdin queue =
      some (.ok claim)) :
    ∃ response, exact_response (as_bytes presentation.challenge.confirmation) stdin queue =
      some (.ok response) ∧ claim.response_sha256 = digest (as_bytes response) ∧
        in_window presentation.challenge claim.responded_at_unix_ms := by
  unfold read_bounded_exact_response_from_current_terminal_v1 at h
  split at h
  · exact absurd h (by simp)
  · obtain ⟨result, hresult, h⟩ := Option.map_eq_some_iff.mp h
    obtain ⟨response, rfl, hafter⟩ := bind_eq_ok.mp h
    unfold after_reading at hafter
    obtain ⟨-, -, hafter⟩ := bind_eq_ok.mp hafter
    obtain ⟨now, -, hafter⟩ := bind_eq_ok.mp hafter
    obtain ⟨hnow, -, hafter⟩ := bind_eq_ok.mp hafter
    rw [← Except.ok.inj hafter]
    exact ⟨response, hresult, rfl, hnow.down⟩

/-- The confirmation of a challenge is one line of 202 bytes. -/
theorem challenge_confirmation_line (request_id preflight_sha256 challenge_id : Sha256) :
    '\n' ∉ challenge_confirmation request_id preflight_sha256 challenge_id ∧
      byte_len (challenge_confirmation request_id preflight_sha256 challenge_id) = 202 := by
  have hhex (value : Sha256) : ∀ c ∈ value.to_string, c.toNat ≤ 127 ∧ c ≠ '\n' := by
    intro c hc
    have hlower := List.all_eq_true.mp (hex_all_lower value.bytes) c hc
    have hdigits : ∀ c ∈ "0123456789abcdef".toList, c.toNat ≤ 127 ∧ c ≠ '\n' := by decide
    exact hdigits c (lower_hex_mem hlower)
  have hall : ∀ c ∈ challenge_confirmation request_id preflight_sha256 challenge_id,
      c.toNat ≤ 127 ∧ c ≠ '\n' := by
    intro c hc
    unfold challenge_confirmation at hc
    simp only [List.mem_append, List.mem_cons] at hc
    obtain hc | hc | rfl | hc | rfl | hc := hc
    · revert c
      decide
    · exact hhex _ c hc
    · decide
    · exact hhex _ c hc
    · decide
    · exact hhex _ c hc
  refine ⟨fun hmem => (hall _ hmem).2 rfl, ?_⟩
  rw [byte_len_ascii fun c hc => (hall c hc).1]
  unfold challenge_confirmation
  simp only [List.length_append, List.length_cons, Sha256.to_string_length]
  rfl

/-! ## Every response -/

/-- **Exact responses.** The loop ends after a bounded number of arrivals and bytes, and the
response passes exactly if the bytes that were delivered, those in the buffer among them, are
the confirmation and a newline, with nothing queued behind them. -/
theorem exact_response_iff (confirmation : Str) (hline : '\n' ∉ confirmation) (stdin : Stdin)
    (queue : Except String ℕ) :
    (read_window (as_bytes confirmation) stdin).1 ≠ .exhausted ∧
    (byte_len confirmation + 3 ≤ stdin.arrivals.length →
      (read_window (as_bytes confirmation) stdin).1 ≠ .waiting) ∧
    (delivered stdin (read_window (as_bytes confirmation) stdin).2).length ≤
      byte_len confirmation + 2 + (read_window (as_bytes confirmation) stdin).2.buffered.length ∧
    ∀ result, exact_response (as_bytes confirmation) stdin queue = some result →
      ((result = .ok confirmation ↔
        delivered stdin (read_window (as_bytes confirmation) stdin).2 =
          as_bytes confirmation ++ [newline] ∧ queue = .ok 0) ∧
        ∀ response, result = .ok response → response = confirmation) := by
  have hplain : newline ∉ as_bytes confirmation := fun hmem => hline (newline_mem hmem)
  have hended := read_window_ended (as_bytes confirmation) stdin
  have hexact := ended_exact hplain hended
  have hsize : window_size (as_bytes confirmation) = byte_len confirmation + 2 := rfl
  generalize hread : read_window (as_bytes confirmation) stdin = read at *
  obtain ⟨ending, rest⟩ := read
  dsimp only at hended hexact ⊢
  refine ⟨?_, ?_, ?_, ?_⟩
  · rintro rfl
    exact hended
  · rintro harrivals rfl
    have hwaiting := read_loop_waiting (congrArg Prod.fst hread)
    omega
  · have htook : ∃ used, used.length ≤ window_size (as_bytes confirmation) ∧ Took stdin rest used := by
      cases ending with
      | exhausted => exact absurd hended id
      | line window => exact ⟨window, hended.2.1, hended.2.2.1⟩
      | refused error =>
        obtain ⟨used, -, hle, htook, -⟩ := hended
        exact ⟨used, hle, htook⟩
      | waiting =>
        obtain ⟨used, -, hle, htook, -⟩ := hended
        exact ⟨used, hle, htook⟩
    obtain ⟨used, hle, htook⟩ := htook
    rw [htook.delivered, List.length_append]
    omega
  · intro result hresult
    unfold exact_response at hresult
    rw [hread] at hresult
    rw [hexact]
    cases ending with
    | exhausted => exact absurd hresult (by simp)
    | waiting => exact absurd hresult (by simp)
    | refused error =>
      rw [← Option.some.inj hresult]
      exact ⟨iff_of_false (by simp) (by simp), by simp⟩
    | line window =>
      cases queue with
      | error message =>
        rw [← Option.some.inj hresult]
        exact ⟨iff_of_false (by simp) (by simp), by simp⟩
      | ok queued =>
        rw [← Option.some.inj hresult, Ending.line.injEq, Except.ok.injEq]
        refine ⟨?_, fun response hok => ((validate_eq_ok hline).mp hok).2.2⟩
        rw [validate_eq_ok hline]
        exact ⟨fun h => ⟨h.1, h.2.1⟩, fun h => ⟨h.1, h.2, rfl⟩⟩

/-- The input `a`, newline passes for the confirmation `a`, and it is what has been delivered. -/
theorem exact_response_iff_example :
    '\n' ∉ ['a'] ∧ delivered ⟨[0x61, newline], []⟩
      (read_window (as_bytes ['a']) ⟨[0x61, newline], []⟩).2 = as_bytes ['a'] ++ [newline] := by
  have hline : '\n' ∉ ['a'] := by decide
  have hread : exact_response (as_bytes ['a']) ⟨[0x61, newline], []⟩ (.ok 0) = some (.ok ['a']) := rfl
  obtain ⟨-, -, -, hexact⟩ := exact_response_iff ['a'] hline ⟨[0x61, newline], []⟩ (.ok 0)
  exact ⟨hline, ((hexact _ hread).1.mp rfl).1⟩

/-- A confirmation that is itself a newline is not read, although it and a newline have been
delivered and nothing else. -/
theorem newline_confirmation_refused :
    ∃ stdin : Stdin,
      delivered stdin (read_window (as_bytes ['\n']) stdin).2 = as_bytes ['\n'] ++ [newline] ∧
      exact_response (as_bytes ['\n']) stdin (.ok 0) = some (.error (response_error .ExtraInput
        "approval response contains or queues input after the first newline")) :=
  ⟨⟨[newline, newline], []⟩, by decide, rfl⟩

end LeanBun.Approval.Response
