/-
The request that is sent to the macOS coordinator.

`prepare_macos_coordinator_request_v1` seals a peer claim, a threat principal, the
digests of the approval chain, a nonce and a time window into one request with an
identity of its own. The peer and the principal have private fields and one checked
constructor each, so their checks are fields of the structures here.
-/
import LeanBun.Core.Encoding
import LeanBun.Lib.BigEndian
import LeanBun.Lib.Check

set_option autoImplicit false

namespace LeanBun.Approval

open LeanBun.Lib LeanBun.Core

def MACOS_COORDINATOR_AUTHORIZATION_RIGHT_V1 : Str :=
  "com.leanbun.execute-reserved-lake-command".toList
def MAX_REQUEST_LIFETIME_MS : ℕ := 60000
def MAX_SIGNING_IDENTIFIER_BYTES : ℕ := 128
def TEAM_IDENTIFIER_BYTES : ℕ := 10
def MAX_SUPPLEMENTARY_GROUPS : ℕ := 32

/-! ## Checks -/

/-- `u8::is_ascii_uppercase`. -/
def is_ascii_uppercase (byte : UInt8) : Bool := decide (65 ≤ byte ∧ byte ≤ 90)

/-- `u8::is_ascii_digit`. -/
def is_ascii_digit (byte : UInt8) : Bool := decide (48 ≤ byte ∧ byte ≤ 57)

/-- `u8::is_ascii_alphanumeric`. -/
def is_ascii_alphanumeric (byte : UInt8) : Bool :=
  is_ascii_uppercase byte || is_ascii_digit byte || decide (97 ≤ byte ∧ byte ≤ 122)

def valid_signing_identifier (value : Str) : Bool :=
  let bytes := as_bytes value
  decide (bytes ≠ []) && decide (bytes.length ≤ MAX_SIGNING_IDENTIFIER_BYTES) &&
    bytes.head?.any is_ascii_alphanumeric && bytes.getLast?.any is_ascii_alphanumeric &&
    (bytes.all fun byte => is_ascii_alphanumeric byte || decide (byte = 46 ∨ byte = 45)) &&
    !decide ("..".toList <:+: value)

def valid_team_identifier (value : Str) : Bool :=
  decide (byte_len value = TEAM_IDENTIFIER_BYTES) &&
    (as_bytes value).all fun byte => is_ascii_uppercase byte || is_ascii_digit byte

def is_zero_sha256 (value : Sha256) : Bool := value.bytes.all fun byte => decide (byte = 0)

/-! ## Errors -/

/-- `MacOsCoordinatorRequestRejectionV1`. -/
inductive MacOsCoordinatorRequestRejectionV1 where
  | InvalidPeerIdentity
  | InvalidThreatPrincipal
  | InvalidSupplementaryGroups
  | PeerPrincipalMismatch
  | InvalidLineage
  | InvalidNonce
  | InvalidTimeWindow
deriving DecidableEq

/-- `MacOsCoordinatorRequestError`. -/
structure MacOsCoordinatorRequestError where
  rejection : MacOsCoordinatorRequestRejectionV1
  message : String
deriving DecidableEq

abbrev RequestResult (α : Type) := Except MacOsCoordinatorRequestError α

/-! ## Peer, principal and lineage -/

/-- What `macos_coordinator_peer_identity_claim_v1` accepts. -/
def valid_peer (signing_identifier team_identifier : Str) (code_requirement_sha256 : Sha256)
    (effective_uid : UInt32) : Bool :=
  valid_signing_identifier signing_identifier && valid_team_identifier team_identifier &&
    !is_zero_sha256 code_requirement_sha256 && decide (effective_uid ≠ 0)

/-- `MacOsCoordinatorPeerIdentityClaimV1`. -/
structure MacOsCoordinatorPeerIdentityClaimV1 where
  signing_identifier : Str
  team_identifier : Str
  code_requirement_sha256 : Sha256
  effective_uid : UInt32
  audit_session_id : UInt32
  valid : valid_peer signing_identifier team_identifier code_requirement_sha256 effective_uid = true
deriving DecidableEq

def macos_coordinator_peer_identity_claim_v1 (signing_identifier team_identifier : Str)
    (code_requirement_sha256 : Sha256) (effective_uid audit_session_id : UInt32) :
    RequestResult MacOsCoordinatorPeerIdentityClaimV1 := do
  let ⟨valid⟩ ← ensure
    (valid_peer signing_identifier team_identifier code_requirement_sha256 effective_uid = true)
    ⟨.InvalidPeerIdentity, "coordinator peer claim requires bounded signing identity, " ++
      "code requirement, and non-root effective UID"⟩
  return ⟨signing_identifier, team_identifier, code_requirement_sha256, effective_uid,
    audit_session_id, valid⟩

/-- What the second check of `macos_coordinator_threat_principal_v1` accepts: at most 32
groups, each below the next, and none of them the primary one. -/
def valid_groups (primary_gid : UInt32) (supplementary_groups : List UInt32) : Bool :=
  decide (supplementary_groups.length ≤ MAX_SUPPLEMENTARY_GROUPS) &&
    decide (supplementary_groups.IsChain (· < ·)) && !supplementary_groups.contains primary_gid

/-- `MacOsCoordinatorThreatPrincipalV1`. -/
structure MacOsCoordinatorThreatPrincipalV1 where
  uid : UInt32
  primary_gid : UInt32
  supplementary_groups : List UInt32
  nonroot : uid ≠ 0
  valid : valid_groups primary_gid supplementary_groups = true
deriving DecidableEq

def macos_coordinator_threat_principal_v1 (uid primary_gid : UInt32)
    (supplementary_groups : List UInt32) : RequestResult MacOsCoordinatorThreatPrincipalV1 := do
  let ⟨nonroot⟩ ← ensure (uid ≠ 0)
    ⟨.InvalidThreatPrincipal, "coordinator threat principal must be an explicit non-root UID"⟩
  let ⟨valid⟩ ← ensure (valid_groups primary_gid supplementary_groups = true)
    ⟨.InvalidSupplementaryGroups, "supplementary groups must be bounded, strictly sorted, " ++
      "unique, and exclude the primary GID"⟩
  return ⟨uid, primary_gid, supplementary_groups, nonroot, valid⟩

/-- `MacOsCoordinatorLineageReferenceV1`. -/
structure MacOsCoordinatorLineageReferenceV1 where
  reservation_sha256 : Sha256
  intent_sha256 : Sha256
  grant_sha256 : Sha256
  candidate_sha256 : Sha256
  proof_sha256 : Sha256
  executable_sha256 : Sha256
deriving DecidableEq

def lineage_digests (lineage : MacOsCoordinatorLineageReferenceV1) : List Sha256 :=
  [lineage.reservation_sha256, lineage.intent_sha256, lineage.grant_sha256,
    lineage.candidate_sha256, lineage.proof_sha256, lineage.executable_sha256]

/-! ## The request -/

/-- `MacOsCoordinatorOperationV1`. -/
inductive MacOsCoordinatorOperationV1 where
  | ExecuteReservedLakeCommand
deriving DecidableEq

/-- `MacOsCoordinatorRequestDecisionV1`. -/
inductive MacOsCoordinatorRequestDecisionV1 where
  | PendingCoordinatorVerification
deriving DecidableEq

/-- `PlanExecutionAuthorityV1`. -/
inductive PlanExecutionAuthorityV1 where
  | Withheld
deriving DecidableEq

/-- `MacOsCoordinatorRequestV1`. -/
structure MacOsCoordinatorRequestV1 where
  schema_version : UInt8
  operation : MacOsCoordinatorOperationV1
  peer : MacOsCoordinatorPeerIdentityClaimV1
  threat_principal : MacOsCoordinatorThreatPrincipalV1
  authorization_right : Str
  lineage : MacOsCoordinatorLineageReferenceV1
  nonce_sha256 : Sha256
  issued_at_unix_ms : UInt64
  expires_at_unix_ms : UInt64
  request_sha256 : Sha256
  decision : MacOsCoordinatorRequestDecisionV1
  execution_authority : PlanExecutionAuthorityV1
deriving DecidableEq

/-- `identity_field`: the key and the value, each behind its length. -/
def identity_field (key : String) (value : List UInt8) : List UInt8 :=
  string_bytes key.toList ++ (be64 value.length ++ value)

/-- The groups as `supplementary_groups` writes them. -/
def group_bytes (groups : List UInt32) : List UInt8 := groups.flatMap be32

/-- What `coordinator_request_sha256` feeds to the hasher. -/
def coordinator_request_bytes (peer : MacOsCoordinatorPeerIdentityClaimV1)
    (threat : MacOsCoordinatorThreatPrincipalV1) (lineage : MacOsCoordinatorLineageReferenceV1)
    (nonce_sha256 : Sha256) (issued_at_unix_ms expires_at_unix_ms : UInt64) : List UInt8 :=
  as_bytes "leanbun-macos-coordinator-request-v1\x00".toList ++
    List.flatten [
      identity_field "operation" (as_bytes "execute-reserved-lake-command".toList),
      identity_field "authorizationRight" (as_bytes MACOS_COORDINATOR_AUTHORIZATION_RIGHT_V1),
      identity_field "peerSigningIdentifier" (as_bytes peer.signing_identifier),
      identity_field "peerTeamIdentifier" (as_bytes peer.team_identifier),
      identity_field "peerCodeRequirementSha256" peer.code_requirement_sha256.bytes,
      identity_field "peerEffectiveUid" (be32 peer.effective_uid),
      identity_field "peerAuditSessionId" (be32 peer.audit_session_id),
      identity_field "threatUid" (be32 threat.uid),
      identity_field "threatPrimaryGid" (be32 threat.primary_gid),
      identity_field "threatSupplementaryGroups" (group_bytes threat.supplementary_groups),
      identity_field "reservationSha256" lineage.reservation_sha256.bytes,
      identity_field "intentSha256" lineage.intent_sha256.bytes,
      identity_field "grantSha256" lineage.grant_sha256.bytes,
      identity_field "candidateSha256" lineage.candidate_sha256.bytes,
      identity_field "proofSha256" lineage.proof_sha256.bytes,
      identity_field "executableSha256" lineage.executable_sha256.bytes,
      identity_field "nonceSha256" nonce_sha256.bytes,
      identity_field "issuedAtUnixMs" (be64 issued_at_unix_ms.toNat),
      identity_field "expiresAtUnixMs" (be64 expires_at_unix_ms.toNat)]

def coordinator_request_sha256 (peer : MacOsCoordinatorPeerIdentityClaimV1)
    (threat : MacOsCoordinatorThreatPrincipalV1) (lineage : MacOsCoordinatorLineageReferenceV1)
    (nonce_sha256 : Sha256) (issued_at_unix_ms expires_at_unix_ms : UInt64) : Sha256 :=
  digest (coordinator_request_bytes peer threat lineage nonce_sha256 issued_at_unix_ms
    expires_at_unix_ms)

/-- `checked_sub` gives a lifetime of at least one millisecond and at most a minute. -/
def valid_window (issued_at_unix_ms expires_at_unix_ms : UInt64) : Prop :=
  issued_at_unix_ms.toNat + 1 ≤ expires_at_unix_ms.toNat ∧
    expires_at_unix_ms.toNat ≤ issued_at_unix_ms.toNat + MAX_REQUEST_LIFETIME_MS

instance (issued_at_unix_ms expires_at_unix_ms : UInt64) :
    Decidable (valid_window issued_at_unix_ms expires_at_unix_ms) :=
  inferInstanceAs (Decidable (_ ∧ _))

def prepare_macos_coordinator_request_v1 (peer : MacOsCoordinatorPeerIdentityClaimV1)
    (threat_principal : MacOsCoordinatorThreatPrincipalV1)
    (lineage : MacOsCoordinatorLineageReferenceV1) (nonce_sha256 : Sha256)
    (issued_at_unix_ms expires_at_unix_ms : UInt64) : RequestResult MacOsCoordinatorRequestV1 := do
  let _ ← ensure (peer.effective_uid = threat_principal.uid)
    ⟨.PeerPrincipalMismatch,
      "authenticated peer effective UID must equal the explicit threat principal UID"⟩
  let _ ← ensure ((lineage_digests lineage).any is_zero_sha256 = false)
    ⟨.InvalidLineage, "coordinator request requires every M19 lineage digest"⟩
  let _ ← ensure (is_zero_sha256 nonce_sha256 = false)
    ⟨.InvalidNonce, "coordinator request nonce digest must not be the zero sentinel"⟩
  let _ ← ensure (valid_window issued_at_unix_ms expires_at_unix_ms)
    ⟨.InvalidTimeWindow,
      "coordinator request must have a positive lifetime of at most 60 seconds"⟩
  return ⟨1, .ExecuteReservedLakeCommand, peer, threat_principal,
    MACOS_COORDINATOR_AUTHORIZATION_RIGHT_V1, lineage, nonce_sha256, issued_at_unix_ms,
    expires_at_unix_ms,
    coordinator_request_sha256 peer threat_principal lineage nonce_sha256 issued_at_unix_ms
      expires_at_unix_ms,
    .PendingCoordinatorVerification, .Withheld⟩

/-! ## What the constructors give -/

section Constructors

variable {peer : MacOsCoordinatorPeerIdentityClaimV1}
  {threat : MacOsCoordinatorThreatPrincipalV1} {lineage : MacOsCoordinatorLineageReferenceV1}
  {nonce : Sha256} {issued expires : UInt64} {request : MacOsCoordinatorRequestV1}

/-- A claim is accepted again from its own parts. -/
theorem peer_claim_eq_ok {signing team : Str} {code : Sha256} {uid session : UInt32} :
    macos_coordinator_peer_identity_claim_v1 signing team code uid session = .ok peer ↔
      signing = peer.signing_identifier ∧ team = peer.team_identifier ∧
        code = peer.code_requirement_sha256 ∧ uid = peer.effective_uid ∧
        session = peer.audit_session_id := by
  unfold macos_coordinator_peer_identity_claim_v1
  constructor
  · intro h
    obtain ⟨_, -, h⟩ := bind_eq_ok.mp h
    cases h
    exact ⟨rfl, rfl, rfl, rfl, rfl⟩
  · rintro ⟨rfl, rfl, rfl, rfl, rfl⟩
    rw [ensure_ok peer.valid]
    rfl

theorem threat_principal_eq_ok {uid gid : UInt32} {groups : List UInt32} :
    macos_coordinator_threat_principal_v1 uid gid groups = .ok threat ↔
      uid = threat.uid ∧ gid = threat.primary_gid ∧ groups = threat.supplementary_groups := by
  unfold macos_coordinator_threat_principal_v1
  constructor
  · intro h
    obtain ⟨_, -, h⟩ := bind_eq_ok.mp h
    obtain ⟨_, -, h⟩ := bind_eq_ok.mp h
    cases h
    exact ⟨rfl, rfl, rfl⟩
  · rintro ⟨rfl, rfl, rfl⟩
    rw [ensure_ok threat.nonroot, ensure_ok threat.valid]
    rfl

/-- The request that the parts determine. -/
def sealed_request (peer : MacOsCoordinatorPeerIdentityClaimV1)
    (threat : MacOsCoordinatorThreatPrincipalV1) (lineage : MacOsCoordinatorLineageReferenceV1)
    (nonce : Sha256) (issued expires : UInt64) : MacOsCoordinatorRequestV1 :=
  ⟨1, .ExecuteReservedLakeCommand, peer, threat, MACOS_COORDINATOR_AUTHORIZATION_RIGHT_V1, lineage,
    nonce, issued, expires, coordinator_request_sha256 peer threat lineage nonce issued expires,
    .PendingCoordinatorVerification, .Withheld⟩

/-- Preparing is checking and sealing. -/
theorem prepare_eq_ok :
    prepare_macos_coordinator_request_v1 peer threat lineage nonce issued expires = .ok request ↔
      (peer.effective_uid = threat.uid ∧ (lineage_digests lineage).any is_zero_sha256 = false ∧
        is_zero_sha256 nonce = false ∧ valid_window issued expires) ∧
      request = sealed_request peer threat lineage nonce issued expires := by
  unfold prepare_macos_coordinator_request_v1
  constructor
  · intro h
    obtain ⟨⟨huid⟩, -, h⟩ := bind_eq_ok.mp h
    obtain ⟨⟨hlineage⟩, -, h⟩ := bind_eq_ok.mp h
    obtain ⟨⟨hnonce⟩, -, h⟩ := bind_eq_ok.mp h
    obtain ⟨⟨hwindow⟩, -, h⟩ := bind_eq_ok.mp h
    cases h
    exact ⟨⟨huid, hlineage, hnonce, hwindow⟩, rfl⟩
  · rintro ⟨⟨huid, hlineage, hnonce, hwindow⟩, rfl⟩
    rw [ensure_ok huid, ensure_ok hlineage, ensure_ok hnonce, ensure_ok hwindow]
    rfl

/-- A prepared request is prepared again from what it shows. -/
theorem prepare_again
    (h : prepare_macos_coordinator_request_v1 peer threat lineage nonce issued expires =
      .ok request) :
    prepare_macos_coordinator_request_v1 request.peer request.threat_principal request.lineage
      request.nonce_sha256 request.issued_at_unix_ms request.expires_at_unix_ms = .ok request := by
  obtain ⟨-, rfl⟩ := prepare_eq_ok.mp h
  exact h

end Constructors

end LeanBun.Approval
