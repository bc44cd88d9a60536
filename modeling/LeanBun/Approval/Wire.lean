/-
The wire form of a coordinator request.

A message is a magic text, a field count and twenty-one fields in a fixed order, each
behind its number and its length. The decoder cuts the fields off, checks each value,
prepares the request anew from them and compares the identity in the last field.

Every reader below is described by one equivalence: it returns a value exactly on the
bytes that the writer makes of that value. The two directions of the round trip are
then the two directions of one statement about the whole message.
-/
import LeanBun.Approval.Request

set_option autoImplicit false

namespace LeanBun.Approval

open LeanBun.Lib LeanBun.Core

def WIRE_MAGIC : List UInt8 := as_bytes "leanbun-macos-coordinator-wire-v1\x00".toList
def WIRE_FIELD_COUNT : ℕ := 21
def MAX_WIRE_FIELD_BYTES : ℕ := 256
def MAX_MACOS_COORDINATOR_REQUEST_WIRE_BYTES_V1 : ℕ := 4096

def FIELD_SCHEMA_VERSION : ℕ := 1
def FIELD_OPERATION : ℕ := 2
def FIELD_AUTHORIZATION_RIGHT : ℕ := 3
def FIELD_PEER_SIGNING_IDENTIFIER : ℕ := 4
def FIELD_PEER_TEAM_IDENTIFIER : ℕ := 5
def FIELD_PEER_CODE_REQUIREMENT_SHA256 : ℕ := 6
def FIELD_PEER_EFFECTIVE_UID : ℕ := 7
def FIELD_PEER_AUDIT_SESSION_ID : ℕ := 8
def FIELD_THREAT_UID : ℕ := 9
def FIELD_THREAT_PRIMARY_GID : ℕ := 10
def FIELD_THREAT_SUPPLEMENTARY_GROUPS : ℕ := 11
def FIELD_RESERVATION_SHA256 : ℕ := 12
def FIELD_INTENT_SHA256 : ℕ := 13
def FIELD_GRANT_SHA256 : ℕ := 14
def FIELD_CANDIDATE_SHA256 : ℕ := 15
def FIELD_PROOF_SHA256 : ℕ := 16
def FIELD_EXECUTABLE_SHA256 : ℕ := 17
def FIELD_NONCE_SHA256 : ℕ := 18
def FIELD_ISSUED_AT_UNIX_MS : ℕ := 19
def FIELD_EXPIRES_AT_UNIX_MS : ℕ := 20
def FIELD_REQUEST_SHA256 : ℕ := 21

def OPERATION_NAME : List UInt8 := as_bytes "execute-reserved-lake-command".toList

/-- `MacOsCoordinatorWireRejectionV1`. -/
inductive MacOsCoordinatorWireRejectionV1 where
  | OversizedEnvelope
  | InvalidMagic
  | InvalidFieldCount
  | NonCanonicalFieldOrder
  | OversizedField
  | TruncatedEnvelope
  | TrailingBytes
  | InvalidFieldValue
  | InvalidRequest
  | RequestIdentityMismatch
deriving DecidableEq

/-- `MacOsCoordinatorWireError`. -/
structure MacOsCoordinatorWireError where
  rejection : MacOsCoordinatorWireRejectionV1
  message : String
deriving DecidableEq

abbrev WireResult (α : Type) := Except MacOsCoordinatorWireError α

def invalid_field (message : String) : MacOsCoordinatorWireError := ⟨.InvalidFieldValue, message⟩

def truncated : MacOsCoordinatorWireError :=
  ⟨.TruncatedEnvelope, "coordinator request wire is truncated"⟩

def request_invalid (error : MacOsCoordinatorRequestError) : MacOsCoordinatorWireError :=
  ⟨.InvalidRequest, "decoded coordinator request is invalid: " ++ error.message⟩

/-! ## Writing -/

/-- `wire_field`: the number, the length and the value. -/
def wire_field (field : ℕ × List UInt8) : List UInt8 :=
  be_bytes 2 field.1 ++ (be_bytes 4 field.2.length ++ field.2)

/-- The fields of a request in the order they are written. -/
def wire_fields (request : MacOsCoordinatorRequestV1) : List (ℕ × List UInt8) := [
  (FIELD_SCHEMA_VERSION, [request.schema_version]),
  (FIELD_OPERATION, OPERATION_NAME),
  (FIELD_AUTHORIZATION_RIGHT, as_bytes request.authorization_right),
  (FIELD_PEER_SIGNING_IDENTIFIER, as_bytes request.peer.signing_identifier),
  (FIELD_PEER_TEAM_IDENTIFIER, as_bytes request.peer.team_identifier),
  (FIELD_PEER_CODE_REQUIREMENT_SHA256, request.peer.code_requirement_sha256.bytes),
  (FIELD_PEER_EFFECTIVE_UID, be32 request.peer.effective_uid),
  (FIELD_PEER_AUDIT_SESSION_ID, be32 request.peer.audit_session_id),
  (FIELD_THREAT_UID, be32 request.threat_principal.uid),
  (FIELD_THREAT_PRIMARY_GID, be32 request.threat_principal.primary_gid),
  (FIELD_THREAT_SUPPLEMENTARY_GROUPS, group_bytes request.threat_principal.supplementary_groups),
  (FIELD_RESERVATION_SHA256, request.lineage.reservation_sha256.bytes),
  (FIELD_INTENT_SHA256, request.lineage.intent_sha256.bytes),
  (FIELD_GRANT_SHA256, request.lineage.grant_sha256.bytes),
  (FIELD_CANDIDATE_SHA256, request.lineage.candidate_sha256.bytes),
  (FIELD_PROOF_SHA256, request.lineage.proof_sha256.bytes),
  (FIELD_EXECUTABLE_SHA256, request.lineage.executable_sha256.bytes),
  (FIELD_NONCE_SHA256, request.nonce_sha256.bytes),
  (FIELD_ISSUED_AT_UNIX_MS, be64 request.issued_at_unix_ms.toNat),
  (FIELD_EXPIRES_AT_UNIX_MS, be64 request.expires_at_unix_ms.toNat),
  (FIELD_REQUEST_SHA256, request.request_sha256.bytes)]

def encode_macos_coordinator_request_wire_v1 (request : MacOsCoordinatorRequestV1) : List UInt8 :=
  WIRE_MAGIC ++ (be_bytes 2 WIRE_FIELD_COUNT ++ (wire_fields request).flatMap wire_field)

/-! ## Reading -/

/-- `WireCursor`: the bytes that have not been taken yet. -/
abbrev WireCursor := List UInt8

/-- `WireCursor::take`. -/
def WireCursor.take (cursor : WireCursor) (length : ℕ) : WireResult (List UInt8 × WireCursor) :=
  match cut length cursor with
  | some taken => .ok taken
  | none => .error truncated

/-- `read_u16` and `read_u32`: a number of the given width. -/
def WireCursor.read_number (cursor : WireCursor) (width : ℕ) : WireResult (ℕ × WireCursor) := do
  let (bytes, cursor) ← cursor.take width
  return (be_value bytes, cursor)

/-- The loop over the expected field numbers. -/
def read_fields (cursor : WireCursor) : List ℕ → WireResult (List (List UInt8) × WireCursor)
  | [] => return ([], cursor)
  | expected_id :: ids => do
    let (field_id, cursor) ← WireCursor.read_number cursor 2
    let _ ← ensure (field_id = expected_id)
      ⟨.NonCanonicalFieldOrder, "coordinator request fields must be unique and strictly ordered"⟩
    let (field_length, cursor) ← WireCursor.read_number cursor 4
    let _ ← ensure (field_length ≤ MAX_WIRE_FIELD_BYTES)
      ⟨.OversizedField, "coordinator request field exceeds 256 bytes"⟩
    let (field, cursor) ← WireCursor.take cursor field_length
    let (fields, cursor) ← read_fields cursor ids
    return (field :: fields, cursor)

def utf8 (bytes : List UInt8) (label : String) : WireResult Str :=
  match from_utf8 bytes with
  | some value => .ok value
  | none => .error (invalid_field (label ++ " is not UTF-8"))

def sha256_field (bytes : List UInt8) (label : String) : WireResult Sha256 :=
  if h : bytes.length = 32 then .ok ⟨bytes, h⟩
  else .error (invalid_field (label ++ " must contain exactly 32 bytes"))

def u32_field (bytes : List UInt8) (label : String) : WireResult UInt32 :=
  if bytes.length = 4 then .ok (UInt32.ofNat (be_value bytes))
  else .error (invalid_field (label ++ " must contain exactly 4 bytes"))

def u64_field (bytes : List UInt8) (label : String) : WireResult UInt64 :=
  if bytes.length = 8 then .ok (UInt64.ofNat (be_value bytes))
  else .error (invalid_field (label ++ " must contain exactly 8 bytes"))

/-- `chunks_exact(4)`, each chunk a number. -/
def group_words : List UInt8 → List UInt32
  | a :: b :: c :: d :: bytes => UInt32.ofNat (be_value [a, b, c, d]) :: group_words bytes
  | _ => []

def group_field (bytes : List UInt8) : WireResult (List UInt32) :=
  if bytes.length % 4 = 0 then .ok (group_words bytes)
  else .error (invalid_field "supplementary group bytes must be a sequence of 32-bit GIDs")

/-- What the decoder does with the values of the fields. -/
def decode_fields (fields : List (List UInt8)) : WireResult MacOsCoordinatorRequestV1 := do
  let field (index : ℕ) : List UInt8 := fields.getD index []
  let _ ← ensure (field 0 = [1] ∧ field 1 = OPERATION_NAME)
    (invalid_field "schema version or operation is invalid")
  let authorization_right ← utf8 (field 2) "authorization right"
  let _ ← ensure (authorization_right = MACOS_COORDINATOR_AUTHORIZATION_RIGHT_V1)
    (invalid_field "authorization right is invalid")
  let signing_identifier ← utf8 (field 3) "peer signing identifier"
  let team_identifier ← utf8 (field 4) "peer team identifier"
  let code_requirement ← sha256_field (field 5) "peer code requirement SHA-256"
  let effective_uid ← u32_field (field 6) "peer effective UID"
  let audit_session_id ← u32_field (field 7) "peer audit session ID"
  let peer ← (macos_coordinator_peer_identity_claim_v1 signing_identifier team_identifier
    code_requirement effective_uid audit_session_id).mapError request_invalid
  let threat_uid ← u32_field (field 8) "threat UID"
  let threat_primary_gid ← u32_field (field 9) "threat primary GID"
  let supplementary_groups ← group_field (field 10)
  let threat ← (macos_coordinator_threat_principal_v1 threat_uid threat_primary_gid
    supplementary_groups).mapError request_invalid
  let reservation ← sha256_field (field 11) "reservation SHA-256"
  let intent ← sha256_field (field 12) "intent SHA-256"
  let grant ← sha256_field (field 13) "grant SHA-256"
  let candidate ← sha256_field (field 14) "candidate SHA-256"
  let proof ← sha256_field (field 15) "proof SHA-256"
  let executable ← sha256_field (field 16) "executable SHA-256"
  let nonce ← sha256_field (field 17) "nonce SHA-256"
  let issued ← u64_field (field 18) "issued time"
  let expires ← u64_field (field 19) "expiry time"
  let request ← (prepare_macos_coordinator_request_v1 peer threat
    ⟨reservation, intent, grant, candidate, proof, executable⟩ nonce issued expires).mapError
      request_invalid
  let claimed ← sha256_field (field 20) "request SHA-256"
  let _ ← ensure (claimed = request.request_sha256)
    ⟨.RequestIdentityMismatch,
      "coordinator request wire identity does not match decoded fields"⟩
  return request

def decode_macos_coordinator_request_wire_v1 (bytes : List UInt8) :
    WireResult MacOsCoordinatorRequestV1 := do
  let _ ← ensure (bytes.length ≤ MAX_MACOS_COORDINATOR_REQUEST_WIRE_BYTES_V1)
    ⟨.OversizedEnvelope, "coordinator request wire envelope exceeds 4096 bytes"⟩
  let (magic, cursor) ← WireCursor.take bytes WIRE_MAGIC.length
  let _ ← ensure (magic = WIRE_MAGIC)
    ⟨.InvalidMagic, "coordinator request wire magic is invalid"⟩
  let (count, cursor) ← WireCursor.read_number cursor 2
  let _ ← ensure (count = WIRE_FIELD_COUNT)
    ⟨.InvalidFieldCount, "coordinator request wire must contain exactly 21 fields"⟩
  let (fields, cursor) ← read_fields cursor (List.range' 1 WIRE_FIELD_COUNT)
  let _ ← ensure (cursor = [])
    ⟨.TrailingBytes, "coordinator request wire has trailing bytes"⟩
  decode_fields fields

/-! ## What each reader accepts -/

theorem take_eq_ok {cursor front rest : List UInt8} {length : ℕ} :
    WireCursor.take cursor length = .ok (front, rest) ↔
      front.length = length ∧ cursor = front ++ rest := by
  rw [← cut_eq_some]
  unfold WireCursor.take
  split
  · rename_i taken htaken
    rw [htaken, Except.ok.injEq, Option.some.injEq]
  · rename_i hnone
    rw [hnone]
    exact ⟨fun h => (by cases h), fun h => (by cases h)⟩

theorem read_number_eq_ok {cursor rest : List UInt8} {width n : ℕ} (hn : n < 256 ^ width) :
    WireCursor.read_number cursor width = .ok (n, rest) ↔ cursor = be_bytes width n ++ rest := by
  unfold WireCursor.read_number
  constructor
  · intro h
    obtain ⟨⟨bytes, after⟩, htake, h⟩ := bind_eq_ok.mp h
    cases h
    obtain ⟨hlen, rfl⟩ := take_eq_ok.mp htake
    rw [← hlen, be_bytes_be_value]
  · rintro rfl
    refine bind_eq_ok.mpr ⟨(be_bytes width n, rest), take_eq_ok.mpr ⟨be_bytes_length _ _, rfl⟩, ?_⟩
    show Except.ok (be_value (be_bytes width n), rest) = Except.ok (n, rest)
    rw [be_value_be_bytes hn]

/-- A number that was read fits its width. -/
theorem read_number_lt {cursor rest : List UInt8} {width n : ℕ}
    (h : WireCursor.read_number cursor width = .ok (n, rest)) : n < 256 ^ width := by
  unfold WireCursor.read_number at h
  obtain ⟨⟨bytes, after⟩, htake, h⟩ := bind_eq_ok.mp h
  obtain ⟨hlen, -⟩ := take_eq_ok.mp htake
  cases h
  rw [← hlen]
  exact be_value_lt bytes

/-- **The field loop.** It reads `fields` exactly from the fields as they are written under
the expected numbers, each within the limit. -/
theorem read_fields_eq_ok {ids : List ℕ} (hids : ∀ id ∈ ids, id < 256 ^ 2) {cursor rest : List UInt8}
    {fields : List (List UInt8)} :
    read_fields cursor ids = .ok (fields, rest) ↔
      fields.length = ids.length ∧ (∀ field ∈ fields, field.length ≤ MAX_WIRE_FIELD_BYTES) ∧
        cursor = (ids.zip fields).flatMap wire_field ++ rest := by
  induction ids generalizing cursor fields with
  | nil =>
    constructor
    · intro h
      cases h
      exact ⟨rfl, fun _ h => absurd h List.not_mem_nil, rfl⟩
    · rintro ⟨hlen, -, rfl⟩
      rw [List.length_eq_zero_iff.mp hlen]
      rfl
  | cons id ids ih =>
    have hid : id < 256 ^ 2 := hids id List.mem_cons_self
    have ih' := @ih fun other hother => hids other (List.mem_cons_of_mem _ hother)
    constructor
    · intro h
      unfold read_fields at h
      obtain ⟨⟨field_id, after_id⟩, hread, h⟩ := bind_eq_ok.mp h
      obtain ⟨⟨rfl⟩, -, h⟩ := bind_eq_ok.mp h
      obtain ⟨⟨field_length, after_length⟩, hlength, h⟩ := bind_eq_ok.mp h
      obtain ⟨⟨hsmall⟩, -, h⟩ := bind_eq_ok.mp h
      obtain ⟨⟨field, after_field⟩, htake, h⟩ := bind_eq_ok.mp h
      obtain ⟨⟨others, after⟩, hothers, h⟩ := bind_eq_ok.mp h
      cases h
      obtain ⟨hcount, hlimits, rfl⟩ := ih'.mp hothers
      obtain ⟨rfl, rfl⟩ := take_eq_ok.mp htake
      have hwritten := (read_number_eq_ok (read_number_lt hlength)).mp hlength
      rw [(read_number_eq_ok hid).mp hread, hwritten]
      refine ⟨by rw [List.length_cons, List.length_cons, hcount], ?_, ?_⟩
      · intro other hother
        rcases List.mem_cons.mp hother with rfl | hother
        · exact hsmall
        · exact hlimits other hother
      · rw [List.zip_cons_cons, List.flatMap_cons, wire_field]
        simp only [List.append_assoc]
    · rintro ⟨hcount, hlimits, rfl⟩
      cases fields with
      | nil => cases hcount
      | cons field others =>
        have hsmall : field.length ≤ MAX_WIRE_FIELD_BYTES := hlimits field List.mem_cons_self
        have hfits : field.length < 256 ^ 4 := lt_of_le_of_lt hsmall (by decide)
        rw [List.zip_cons_cons, List.flatMap_cons, wire_field]
        simp only [List.append_assoc]
        unfold read_fields
        refine bind_eq_ok.mpr ⟨_, (read_number_eq_ok hid).mpr rfl, ?_⟩
        refine bind_eq_ok.mpr ⟨_, ensure_ok rfl _, ?_⟩
        refine bind_eq_ok.mpr ⟨_, (read_number_eq_ok hfits).mpr rfl, ?_⟩
        refine bind_eq_ok.mpr ⟨_, ensure_ok hsmall _, ?_⟩
        refine bind_eq_ok.mpr ⟨_, take_eq_ok.mpr ⟨rfl, rfl⟩, ?_⟩
        refine bind_eq_ok.mpr ⟨(others, rest), ih'.mpr ⟨by simpa using hcount, ?_, rfl⟩, rfl⟩
        exact fun other hother => hlimits other (List.mem_cons_of_mem _ hother)

theorem utf8_eq_ok {bytes : List UInt8} {label : String} {value : Str} :
    utf8 bytes label = .ok value ↔ bytes = as_bytes value := by
  rw [← from_utf8_eq_some]
  unfold utf8
  split
  · rename_i read hread
    rw [hread, Except.ok.injEq, Option.some.injEq]
  · rename_i hnone
    rw [hnone]
    exact ⟨fun h => (by cases h), fun h => (by cases h)⟩

theorem sha256_field_eq_ok {bytes : List UInt8} {label : String} {value : Sha256} :
    sha256_field bytes label = .ok value ↔ bytes = value.bytes := by
  unfold sha256_field
  by_cases hlen : bytes.length = 32
  · rw [dif_pos hlen, Except.ok.injEq]
    exact ⟨fun h => congrArg Sha256.bytes h, fun h => Sha256.ext h⟩
  · rw [dif_neg hlen]
    refine ⟨fun h => (by cases h), ?_⟩
    rintro rfl
    exact absurd value.length_eq hlen

theorem be32_eq (n : UInt32) : be32 n = be_bytes 4 n.toNat := by
  simp only [be32, be_bytes, List.map_cons, List.map_nil, Nat.shiftRight_eq_div_pow]
  rfl

theorem be64_eq (n : ℕ) : be64 n = be_bytes 8 n := by
  simp only [be64, be_bytes, List.map_cons, List.map_nil, Nat.shiftRight_eq_div_pow]
  rfl

@[simp] theorem be32_length (n : UInt32) : (be32 n).length = 4 := rfl

@[simp] theorem be64_length (n : ℕ) : (be64 n).length = 8 := rfl

/-- Four bytes are one 32-bit number. -/
theorem uint32_of_be_value {bytes : List UInt8} (hlen : bytes.length = 4) {value : UInt32} :
    UInt32.ofNat (be_value bytes) = value ↔ bytes = be32 value := by
  have hlt : be_value bytes < 2 ^ 32 := by
    have h := be_value_lt bytes
    rw [hlen] at h
    exact h
  have hvalue : value.toNat < 256 ^ 4 := value.toNat_lt
  rw [be32_eq, ← be_value_eq_iff hvalue hlen, ← UInt32.toNat_inj, UInt32.toNat_ofNat',
    Nat.mod_eq_of_lt hlt]

theorem u32_field_eq_ok {bytes : List UInt8} {label : String} {value : UInt32} :
    u32_field bytes label = .ok value ↔ bytes = be32 value := by
  unfold u32_field
  by_cases hlen : bytes.length = 4
  · rw [if_pos hlen, Except.ok.injEq, uint32_of_be_value hlen]
  · rw [if_neg hlen]
    refine ⟨fun h => (by cases h), ?_⟩
    rintro rfl
    exact absurd (be32_length value) hlen

theorem u64_field_eq_ok {bytes : List UInt8} {label : String} {value : UInt64} :
    u64_field bytes label = .ok value ↔ bytes = be64 value.toNat := by
  unfold u64_field
  by_cases hlen : bytes.length = 8
  · have hlt : be_value bytes < 2 ^ 64 := by
      have h := be_value_lt bytes
      rw [hlen] at h
      exact h
    have hvalue : value.toNat < 256 ^ 8 := value.toNat_lt
    rw [if_pos hlen, Except.ok.injEq, be64_eq, ← be_value_eq_iff hvalue hlen, ← UInt64.toNat_inj,
      UInt64.toNat_ofNat', Nat.mod_eq_of_lt hlt]
  · rw [if_neg hlen]
    refine ⟨fun h => (by cases h), ?_⟩
    rintro rfl
    exact absurd (be64_length _) hlen

theorem group_words_group_bytes (groups : List UInt32) : group_words (group_bytes groups) = groups := by
  induction groups with
  | nil => rfl
  | cons group groups ih =>
    have hone : UInt32.ofNat (be_value (be32 group)) = group :=
      (uint32_of_be_value (be32_length group)).mpr rfl
    show UInt32.ofNat (be_value (be32 group)) :: group_words (group_bytes groups) = group :: groups
    rw [hone, ih]

theorem group_bytes_group_words {bytes : List UInt8} (hlen : bytes.length % 4 = 0) :
    group_bytes (group_words bytes) = bytes := by
  fun_induction group_words bytes with
  | case1 a b c d bytes ih =>
    have hone : be32 (UInt32.ofNat (be_value [a, b, c, d])) = [a, b, c, d] :=
      ((uint32_of_be_value rfl).mp rfl).symm
    have hrest : bytes.length % 4 = 0 := by
      simp only [List.length_cons] at hlen
      omega
    rw [group_bytes, List.flatMap_cons, hone, ← group_bytes, ih hrest]
    rfl
  | case2 bytes hshort =>
    match bytes, hshort with
    | [], _ => rfl
    | [_], _ => cases hlen
    | [_, _], _ => cases hlen
    | [_, _, _], _ => cases hlen
    | a :: b :: c :: d :: bytes, hshort => exact absurd rfl (hshort a b c d bytes)

@[simp] theorem group_bytes_length (groups : List UInt32) :
    (group_bytes groups).length = 4 * groups.length := by
  induction groups with
  | nil => rfl
  | cons group groups ih =>
    rw [group_bytes, List.flatMap_cons, List.length_append, ← group_bytes, ih, be32_length,
      List.length_cons]
    omega

theorem group_field_eq_ok {bytes : List UInt8} {groups : List UInt32} :
    group_field bytes = .ok groups ↔ bytes = group_bytes groups := by
  unfold group_field
  by_cases hlen : bytes.length % 4 = 0
  · rw [if_pos hlen, Except.ok.injEq]
    constructor
    · rintro rfl
      exact (group_bytes_group_words hlen).symm
    · rintro rfl
      exact group_words_group_bytes groups
  · rw [if_neg hlen]
    refine ⟨fun h => (by cases h), ?_⟩
    rintro rfl
    rw [group_bytes_length] at hlen
    omega

end LeanBun.Approval
