/-
One wire form for each coordinator request.

The encoder's output on a prepared request is within the limits and is read back as
that request, and what the decoder accepts is the encoder's output on the request it
returns. Both follow from what the readers accept: the fields that decode to a request
are the fields that the request is written with.
-/
import LeanBun.Approval.Wire

set_option autoImplicit false

namespace LeanBun.Approval

open LeanBun.Lib LeanBun.Core

/-- The request is what the constructor makes of its parts. -/
def Prepared (request : MacOsCoordinatorRequestV1) : Prop :=
  prepare_macos_coordinator_request_v1 request.peer request.threat_principal request.lineage
    request.nonce_sha256 request.issued_at_unix_ms request.expires_at_unix_ms = .ok request

/-- The values of the fields. -/
def wire_values (request : MacOsCoordinatorRequestV1) : List (List UInt8) :=
  (wire_fields request).map Prod.snd

theorem wire_values_length (request : MacOsCoordinatorRequestV1) :
    (wire_values request).length = WIRE_FIELD_COUNT := rfl

/-- The fields are numbered from one. -/
theorem zip_wire_values (request : MacOsCoordinatorRequestV1) :
    (List.range' 1 WIRE_FIELD_COUNT).zip (wire_values request) = wire_fields request := rfl

/-- A list of known length is the list of its entries. -/
theorem eq_entries {α : Type} {l : List α} {n : ℕ} (hlen : l.length = n) (d : α) :
    l = (List.range n).map fun index => l.getD index d := by
  refine List.ext_getElem (by rw [List.length_map, List.length_range, hlen]) fun index hl hr => ?_
  rw [List.getElem_map, List.getElem_range, List.getD_eq_getElem _ _ hl]

/-! ## The values of the fields -/

/-- **Decoded fields.** The fields that decode to a request are the ones it is written with. -/
theorem decode_fields_sound {fields : List (List UInt8)} {request : MacOsCoordinatorRequestV1}
    (hlen : fields.length = WIRE_FIELD_COUNT) (h : decode_fields fields = .ok request) :
    fields = wire_values request ∧ Prepared request := by
  unfold decode_fields at h
  dsimp only at h
  obtain ⟨⟨hschema, hoperation⟩, -, h⟩ := bind_eq_ok.mp h
  obtain ⟨right, hright, h⟩ := bind_eq_ok.mp h
  obtain ⟨⟨rfl⟩, -, h⟩ := bind_eq_ok.mp h
  obtain ⟨signing, hsigning, h⟩ := bind_eq_ok.mp h
  obtain ⟨team, hteam, h⟩ := bind_eq_ok.mp h
  obtain ⟨code, hcode, h⟩ := bind_eq_ok.mp h
  obtain ⟨uid, huid, h⟩ := bind_eq_ok.mp h
  obtain ⟨session, hsession, h⟩ := bind_eq_ok.mp h
  obtain ⟨peer, hpeer, h⟩ := bind_eq_ok.mp h
  obtain ⟨threat_uid, hthreat_uid, h⟩ := bind_eq_ok.mp h
  obtain ⟨gid, hgid, h⟩ := bind_eq_ok.mp h
  obtain ⟨groups, hgroups, h⟩ := bind_eq_ok.mp h
  obtain ⟨threat, hthreat, h⟩ := bind_eq_ok.mp h
  obtain ⟨reservation, hreservation, h⟩ := bind_eq_ok.mp h
  obtain ⟨intent, hintent, h⟩ := bind_eq_ok.mp h
  obtain ⟨grant, hgrant, h⟩ := bind_eq_ok.mp h
  obtain ⟨candidate, hcandidate, h⟩ := bind_eq_ok.mp h
  obtain ⟨proof, hproof, h⟩ := bind_eq_ok.mp h
  obtain ⟨executable, hexecutable, h⟩ := bind_eq_ok.mp h
  obtain ⟨nonce, hnonce, h⟩ := bind_eq_ok.mp h
  obtain ⟨issued, hissued, h⟩ := bind_eq_ok.mp h
  obtain ⟨expires, hexpires, h⟩ := bind_eq_ok.mp h
  obtain ⟨prepared, hprepared, h⟩ := bind_eq_ok.mp h
  obtain ⟨claimed, hclaimed, h⟩ := bind_eq_ok.mp h
  obtain ⟨⟨rfl⟩, -, h⟩ := bind_eq_ok.mp h
  cases h
  have hmade := mapError_eq_ok.mp hprepared
  refine ⟨?_, prepare_again hmade⟩
  obtain ⟨rfl, rfl, rfl, rfl, rfl⟩ := peer_claim_eq_ok.mp (mapError_eq_ok.mp hpeer)
  obtain ⟨rfl, rfl, rfl⟩ := threat_principal_eq_ok.mp (mapError_eq_ok.mp hthreat)
  obtain ⟨-, rfl⟩ := prepare_eq_ok.mp hmade
  rw [eq_entries hlen []]
  show [fields.getD 0 [], fields.getD 1 [], fields.getD 2 [], fields.getD 3 [], fields.getD 4 [],
    fields.getD 5 [], fields.getD 6 [], fields.getD 7 [], fields.getD 8 [], fields.getD 9 [],
    fields.getD 10 [], fields.getD 11 [], fields.getD 12 [], fields.getD 13 [], fields.getD 14 [],
    fields.getD 15 [], fields.getD 16 [], fields.getD 17 [], fields.getD 18 [], fields.getD 19 [],
    fields.getD 20 []] = _
  rw [hschema, hoperation, utf8_eq_ok.mp hright, utf8_eq_ok.mp hsigning, utf8_eq_ok.mp hteam,
    sha256_field_eq_ok.mp hcode, u32_field_eq_ok.mp huid, u32_field_eq_ok.mp hsession,
    u32_field_eq_ok.mp hthreat_uid, u32_field_eq_ok.mp hgid, group_field_eq_ok.mp hgroups,
    sha256_field_eq_ok.mp hreservation, sha256_field_eq_ok.mp hintent,
    sha256_field_eq_ok.mp hgrant, sha256_field_eq_ok.mp hcandidate, sha256_field_eq_ok.mp hproof,
    sha256_field_eq_ok.mp hexecutable, sha256_field_eq_ok.mp hnonce, u64_field_eq_ok.mp hissued,
    u64_field_eq_ok.mp hexpires, sha256_field_eq_ok.mp hclaimed]
  rfl

/-- The fields of a prepared request decode to it. -/
theorem decode_wire_values {request : MacOsCoordinatorRequestV1} (h : Prepared request) :
    decode_fields (wire_values request) = .ok request := by
  have hsealed := (prepare_eq_ok.mp h).2
  have hschema : request.schema_version = 1 := congrArg (·.schema_version) hsealed
  have hright : request.authorization_right = MACOS_COORDINATOR_AUTHORIZATION_RIGHT_V1 :=
    congrArg (·.authorization_right) hsealed
  unfold decode_fields
  refine bind_eq_ok.mpr ⟨_, ensure_ok ⟨congrArg (fun version => [version]) hschema, rfl⟩ _, ?_⟩
  refine bind_eq_ok.mpr ⟨_, utf8_eq_ok.mpr rfl, ?_⟩
  refine bind_eq_ok.mpr ⟨_, ensure_ok hright _, ?_⟩
  refine bind_eq_ok.mpr ⟨_, utf8_eq_ok.mpr rfl, ?_⟩
  refine bind_eq_ok.mpr ⟨_, utf8_eq_ok.mpr rfl, ?_⟩
  refine bind_eq_ok.mpr ⟨_, sha256_field_eq_ok.mpr rfl, ?_⟩
  refine bind_eq_ok.mpr ⟨_, u32_field_eq_ok.mpr rfl, ?_⟩
  refine bind_eq_ok.mpr ⟨_, u32_field_eq_ok.mpr rfl, ?_⟩
  refine bind_eq_ok.mpr
    ⟨_, mapError_eq_ok.mpr (peer_claim_eq_ok.mpr ⟨rfl, rfl, rfl, rfl, rfl⟩), ?_⟩
  refine bind_eq_ok.mpr ⟨_, u32_field_eq_ok.mpr rfl, ?_⟩
  refine bind_eq_ok.mpr ⟨_, u32_field_eq_ok.mpr rfl, ?_⟩
  refine bind_eq_ok.mpr ⟨_, group_field_eq_ok.mpr rfl, ?_⟩
  refine bind_eq_ok.mpr ⟨_, mapError_eq_ok.mpr (threat_principal_eq_ok.mpr ⟨rfl, rfl, rfl⟩), ?_⟩
  refine bind_eq_ok.mpr ⟨_, sha256_field_eq_ok.mpr rfl, ?_⟩
  refine bind_eq_ok.mpr ⟨_, sha256_field_eq_ok.mpr rfl, ?_⟩
  refine bind_eq_ok.mpr ⟨_, sha256_field_eq_ok.mpr rfl, ?_⟩
  refine bind_eq_ok.mpr ⟨_, sha256_field_eq_ok.mpr rfl, ?_⟩
  refine bind_eq_ok.mpr ⟨_, sha256_field_eq_ok.mpr rfl, ?_⟩
  refine bind_eq_ok.mpr ⟨_, sha256_field_eq_ok.mpr rfl, ?_⟩
  refine bind_eq_ok.mpr ⟨_, sha256_field_eq_ok.mpr rfl, ?_⟩
  refine bind_eq_ok.mpr ⟨_, u64_field_eq_ok.mpr rfl, ?_⟩
  refine bind_eq_ok.mpr ⟨_, u64_field_eq_ok.mpr rfl, ?_⟩
  refine bind_eq_ok.mpr ⟨request, mapError_eq_ok.mpr h, ?_⟩
  refine bind_eq_ok.mpr ⟨_, sha256_field_eq_ok.mpr rfl, ?_⟩
  exact bind_eq_ok.mpr ⟨_, ensure_ok rfl _, rfl⟩

/-! ## The limits -/

theorem as_bytes_length (value : Str) : (as_bytes value).length = byte_len value := rfl

/-- The texts of a peer claim are short. -/
theorem peer_lengths (peer : MacOsCoordinatorPeerIdentityClaimV1) :
    (as_bytes peer.signing_identifier).length ≤ MAX_SIGNING_IDENTIFIER_BYTES ∧
      (as_bytes peer.team_identifier).length = TEAM_IDENTIFIER_BYTES := by
  have h := peer.valid
  unfold valid_peer valid_signing_identifier valid_team_identifier at h
  simp only [Bool.and_eq_true, decide_eq_true_eq] at h
  exact ⟨h.1.1.1.1.1.1.1.2, h.1.1.2.1⟩

theorem group_count (threat : MacOsCoordinatorThreatPrincipalV1) :
    threat.supplementary_groups.length ≤ MAX_SUPPLEMENTARY_GROUPS := by
  have h := threat.valid
  unfold valid_groups at h
  simp only [Bool.and_eq_true, decide_eq_true_eq] at h
  exact h.1.1

/-- The sum of a field's parts. -/
theorem wire_field_length (field : ℕ × List UInt8) :
    (wire_field field).length = 6 + field.2.length := by
  rw [wire_field, List.length_append, List.length_append, be_bytes_length, be_bytes_length]
  omega

section Limits

variable {request : MacOsCoordinatorRequestV1}

theorem Prepared.authorization_right (h : Prepared request) :
    (as_bytes request.authorization_right).length = 41 := by
  rw [(prepare_eq_ok.mp h).2]
  show (as_bytes MACOS_COORDINATOR_AUTHORIZATION_RIGHT_V1).length = 41
  decide

/-- Every field of a prepared request is within its limit. -/
theorem Prepared.field_limit (h : Prepared request) :
    ∀ field ∈ wire_values request, field.length ≤ MAX_WIRE_FIELD_BYTES := by
  obtain ⟨hsigning, hteam⟩ := peer_lengths request.peer
  have hright := h.authorization_right
  have hgroups := group_count request.threat_principal
  have hoperation : OPERATION_NAME.length = 29 := by decide
  simp only [wire_values, wire_fields, List.map_cons, List.map_nil, List.forall_mem_cons,
    Sha256.length_eq, be32_length, be64_length, group_bytes_length, List.length_singleton,
    hoperation, hright, hteam, List.not_mem_nil, false_implies, implies_true, and_true]
  unfold MAX_SIGNING_IDENTIFIER_BYTES at hsigning
  unfold MAX_SUPPLEMENTARY_GROUPS at hgroups
  unfold MAX_WIRE_FIELD_BYTES TEAM_IDENTIFIER_BYTES
  omega

/-- The message of a prepared request is within its limit. -/
theorem Prepared.envelope_limit (h : Prepared request) :
    (encode_macos_coordinator_request_wire_v1 request).length ≤
      MAX_MACOS_COORDINATOR_REQUEST_WIRE_BYTES_V1 := by
  obtain ⟨hsigning, hteam⟩ := peer_lengths request.peer
  have hright := h.authorization_right
  have hgroups := group_count request.threat_principal
  have hoperation : OPERATION_NAME.length = 29 := by decide
  have hmagic : WIRE_MAGIC.length = 34 := by decide
  simp only [encode_macos_coordinator_request_wire_v1, List.length_append, hmagic, be_bytes_length,
    wire_fields, List.flatMap_cons, List.flatMap_nil, wire_field_length, Sha256.length_eq,
    be32_length, be64_length, group_bytes_length, List.length_singleton, List.length_nil,
    hoperation, hright, hteam]
  unfold MAX_SIGNING_IDENTIFIER_BYTES at hsigning
  unfold MAX_SUPPLEMENTARY_GROUPS at hgroups
  unfold MAX_MACOS_COORDINATOR_REQUEST_WIRE_BYTES_V1 TEAM_IDENTIFIER_BYTES
  omega

/-! ## The message -/

theorem field_ids : ∀ id ∈ List.range' 1 WIRE_FIELD_COUNT, id < 256 ^ 2 := by decide

/-- **Decoding is exact.** The decoder returns a request exactly on the message that the
encoder makes of it, when the request is prepared. -/
theorem decode_eq_ok_iff {bytes : List UInt8} :
    decode_macos_coordinator_request_wire_v1 bytes = .ok request ↔
      Prepared request ∧ bytes = encode_macos_coordinator_request_wire_v1 request := by
  have hcount : WIRE_FIELD_COUNT < 256 ^ 2 := by decide
  constructor
  · intro h
    unfold decode_macos_coordinator_request_wire_v1 at h
    obtain ⟨-, -, h⟩ := bind_eq_ok.mp h
    obtain ⟨⟨magic, after_magic⟩, htake, h⟩ := bind_eq_ok.mp h
    obtain ⟨⟨rfl⟩, -, h⟩ := bind_eq_ok.mp h
    obtain ⟨⟨count, after_count⟩, hread, h⟩ := bind_eq_ok.mp h
    obtain ⟨⟨rfl⟩, -, h⟩ := bind_eq_ok.mp h
    obtain ⟨⟨fields, rest⟩, hfields, h⟩ := bind_eq_ok.mp h
    obtain ⟨⟨rfl⟩, -, h⟩ := bind_eq_ok.mp h
    obtain ⟨hlen, -, hafter⟩ := (read_fields_eq_ok field_ids).mp hfields
    obtain ⟨rfl, hprepared⟩ := decode_fields_sound (by rw [hlen]; rfl) h
    refine ⟨hprepared, ?_⟩
    rw [(take_eq_ok.mp htake).2, (read_number_eq_ok hcount).mp hread, hafter, zip_wire_values,
      List.append_nil]
    rfl
  · rintro ⟨hprepared, rfl⟩
    unfold decode_macos_coordinator_request_wire_v1
    refine bind_eq_ok.mpr ⟨_, ensure_ok hprepared.envelope_limit _, ?_⟩
    refine bind_eq_ok.mpr ⟨(WIRE_MAGIC, _), take_eq_ok.mpr ⟨rfl, rfl⟩, ?_⟩
    refine bind_eq_ok.mpr ⟨_, ensure_ok rfl _, ?_⟩
    refine bind_eq_ok.mpr ⟨_, (read_number_eq_ok hcount).mpr rfl, ?_⟩
    refine bind_eq_ok.mpr ⟨_, ensure_ok rfl _, ?_⟩
    refine bind_eq_ok.mpr ⟨(wire_values request, []), (read_fields_eq_ok field_ids).mpr
      ⟨wire_values_length request, hprepared.field_limit, ?_⟩, ?_⟩
    · rw [zip_wire_values, List.append_nil]
    exact bind_eq_ok.mpr ⟨_, ensure_ok rfl _, decode_wire_values hprepared⟩

end Limits

/-- **One wire form for each request.** A request that `prepare` built is encoded within
the limits and decoded to itself, and a message that decodes is the encoding of what it
decodes to. -/
theorem one_wire_form :
    (∀ peer threat lineage nonce issued expires request,
      prepare_macos_coordinator_request_v1 peer threat lineage nonce issued expires = .ok request →
        (encode_macos_coordinator_request_wire_v1 request).length ≤
            MAX_MACOS_COORDINATOR_REQUEST_WIRE_BYTES_V1 ∧
          (∀ field ∈ wire_fields request, field.2.length ≤ MAX_WIRE_FIELD_BYTES) ∧
          decode_macos_coordinator_request_wire_v1
            (encode_macos_coordinator_request_wire_v1 request) = .ok request) ∧
      ∀ bytes request, decode_macos_coordinator_request_wire_v1 bytes = .ok request →
        encode_macos_coordinator_request_wire_v1 request = bytes := by
  constructor
  · intro peer threat lineage nonce issued expires request h
    have hprepared : Prepared request := prepare_again h
    refine ⟨hprepared.envelope_limit, ?_, decode_eq_ok_iff.mpr ⟨hprepared, rfl⟩⟩
    exact fun field hfield => hprepared.field_limit field.2 (List.mem_map_of_mem hfield)
  · intro bytes request h
    exact (decode_eq_ok_iff.mp h).2.symm

/-- A digest of one repeated byte. -/
def repeated (byte : UInt8) : Sha256 := Sha256.repeated byte

def sample_peer : MacOsCoordinatorPeerIdentityClaimV1 :=
  ⟨"com.leanbun.cli".toList, "AB12CD34EF".toList, repeated 1, 501, 42, by decide +kernel⟩

def sample_threat : MacOsCoordinatorThreatPrincipalV1 :=
  ⟨501, 20, [12, 61, 80], by decide, by decide +kernel⟩

def sample_lineage : MacOsCoordinatorLineageReferenceV1 :=
  ⟨repeated 2, repeated 3, repeated 4, repeated 5, repeated 6, repeated 7⟩

def sample_request : MacOsCoordinatorRequestV1 :=
  sealed_request sample_peer sample_threat sample_lineage (repeated 8) 1000 31000

/-- The request of the crate's own tests is encoded and read back. -/
theorem one_wire_form_sample :
    decode_macos_coordinator_request_wire_v1
        (encode_macos_coordinator_request_wire_v1 sample_request) = .ok sample_request ∧
      encode_macos_coordinator_request_wire_v1 sample_request =
        encode_macos_coordinator_request_wire_v1 sample_request := by
  have hchecks : sample_peer.effective_uid = sample_threat.uid ∧
      (lineage_digests sample_lineage).any is_zero_sha256 = false ∧
      is_zero_sha256 (repeated 8) = false ∧ valid_window 1000 31000 := by decide +kernel
  have hread := (one_wire_form.1 sample_peer sample_threat sample_lineage (repeated 8) 1000 31000
    sample_request (prepare_eq_ok.mpr ⟨hchecks, rfl⟩)).2.2
  exact ⟨hread, one_wire_form.2 _ _ hread⟩

end LeanBun.Approval
