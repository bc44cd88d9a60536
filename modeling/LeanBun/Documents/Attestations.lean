/-
The writer and the reader of attestations agree.

An attestation holds three objects, each with fields of its own. The reader and the writer's
validator are compared on all of them, and on the image id that both derive.
-/
import LeanBun.Documents.Agreement

set_option autoImplicit false

namespace LeanBun.Documents

open LeanBun.Lib LeanBun.Core LeanBun.Execution LeanBun.Codec LeanBun.Evidence.Stored
open LeanBun.Evidence (get Entries ImageIdentityV1)

/-! ## Counts -/

theorem digit_number_char {c : Char} (h : is_digit c = true) : c ≠ '-' ∧ c ≠ '.' ∧ c ≠ 'e' ∧ c ≠ 'E' := by
  refine ⟨?_, ?_, ?_, ?_⟩ <;> (rintro rfl; exact absurd h (by decide))

/-- A JSON number of digits only has no leading zero. -/
theorem canonical_of_number {text : Str} (h : NumberText text) (hdigits : text.all is_digit = true) :
    is_canonical_decimal text = true := by
  have hall := List.all_eq_true.mp hdigits
  obtain ⟨sign, integer, fraction, exponent, rfl, hsign, hinteger, hfraction, hexponent⟩ := h
  have hsign_nil : sign = [] := by
    obtain rfl | rfl := hsign
    · rfl
    · exact absurd rfl (digit_number_char (hall '-' (by simp))).1
  have hfraction_nil : fraction = [] := by
    obtain rfl | ⟨digits, rfl, -⟩ := hfraction
    · rfl
    · exact absurd rfl (digit_number_char (hall '.' (by simp))).2.1
  have hexponent_nil : exponent = [] := by
    obtain rfl | ⟨e, tail, digits, rfl, he, -⟩ := hexponent
    · rfl
    · have hdigit := digit_number_char (hall e (by simp))
      obtain rfl | rfl := he
      · exact absurd rfl hdigit.2.2.1
      · exact absurd rfl hdigit.2.2.2
  subst hsign_nil hfraction_nil hexponent_nil
  rw [List.nil_append, List.append_nil, List.append_nil] at hdigits ⊢
  unfold is_canonical_decimal
  obtain rfl | ⟨⟨hne, -⟩, hhead⟩ := hinteger
  · decide
  · rw [hdigits, decide_eq_false hhead, Bool.and_false]
    cases integer with
    | nil => exact absurd rfl hne
    | cons c integer => rfl

theorem digits_of_canonical {text : Str} (h : is_canonical_decimal text = true) :
    text ≠ [] ∧ text.all is_digit = true := by
  unfold is_canonical_decimal at h
  simp only [Bool.and_eq_true, Bool.not_eq_true', List.isEmpty_eq_false_iff] at h
  exact ⟨h.1.1, h.2⟩

theorem denotes_number {value : Json} {lexical : Str} (h : value.Denotes (.Number ⟨lexical⟩)) :
    ∃ number : JsonNumber, value = .number number ∧ number.text = lexical ∧ NumberText lexical := by
  cases value with
  | number number =>
    unfold Json.Denotes at h
    obtain ⟨hnumber, heq⟩ := h
    simp only [StrictJson.Number.injEq, Codec.JsonNumber.mk.injEq] at heq
    exact ⟨number, rfl, heq.symm, heq ▸ hnumber⟩
  | _ => simp [Json.Denotes] at h

/-- A count stands in the document. -/
def SameCount (document : Json) (name : String) (count : ℕ) : Prop :=
  ∃ number : JsonNumber, document.member (js name) = some (.number number) ∧
    is_count number.text = true ∧ decimal_value number.text = count

/-- **A count** is one on both sides or on neither. -/
theorem count_field_iff {entries : List (JsString × Json)} {root : Entries}
    (h : (Json.object entries).Denotes (.Object root)) (field : String) {count : ℕ} :
    (∃ lexical, CountField root field count lexical) ↔ SameCount (.object entries) field count := by
  constructor
  · rintro ⟨lexical, hget, -, hdigits, hvalue, hsafe⟩
    obtain ⟨value, hmember, hdenotes⟩ := (get_eq_some_iff h field).mp hget
    obtain ⟨number, rfl, htext, hnumber⟩ := denotes_number hdenotes
    refine ⟨number, hmember, ?_, by rw [htext, hvalue]⟩
    unfold is_count
    rw [htext, canonical_of_number hnumber hdigits, hvalue, Bool.true_and, decide_eq_true_eq]
    exact hsafe
  · rintro ⟨number, hmember, hcount, hvalue⟩
    obtain ⟨members, hmembers, -, -⟩ := object_denotes h
    have hnumber : NumberText number.text := by
      have hmem := List.mem_of_find?_eq_some (Option.map_eq_some_iff.mp hmember).choose_spec.1
      obtain ⟨member, -, -, hdenotes⟩ := forall₂_partner hmembers hmem
      rw [(Option.map_eq_some_iff.mp hmember).choose_spec.2] at hdenotes
      unfold Json.Denotes at hdenotes
      exact hdenotes.1
    unfold is_count at hcount
    rw [Bool.and_eq_true, decide_eq_true_eq, hvalue] at hcount
    obtain ⟨hpresent, hdigits⟩ := digits_of_canonical hcount.1
    refine ⟨number.text, ?_, hpresent, hdigits, hvalue, hcount.2⟩
    refine (get_eq_some_iff h field).mpr ⟨_, hmember, ?_⟩
    unfold Json.Denotes
    exact ⟨hnumber, rfl⟩

/-! ## Attestations -/

/-- The content of an attestation stands in the document and in the objects inside it. -/
structure SameAttestation (document identity provider policy : Json)
    (attestation : ImageAttestationV1) : Prop where
  image_id : string_member "imageId" document = some (js_text attestation.image_id.to_string)
  provider_id : string_member "providerId" document = some (js_text attestation.provider_id)
  identity_object : document.member (js "identity") = some identity
  identity : SameIdentity identity attestation.identity
  provider_object : document.member (js "provider") = some provider
  registry_sha256 : string_member "registrySha256" provider =
    some (js_text attestation.provider.registry_sha256.to_string)
  overrides_sha256 : string_member "overridesSha256" provider =
    some (js_text attestation.provider.overrides_sha256.to_string)
  dependency_tree_hash : string_member "dependencyTreeHash" document =
    some (js_text attestation.dependency_tree_hash.to_string)
  artifact_tree_hash : string_member "artifactTreeHash" document =
    some (js_text attestation.artifact_tree_hash.to_string)
  artifact_count : SameCount document "artifactCount" attestation.artifact_count
  policy_object : document.member (js "artifactPolicy") = some policy
  missing_roots : policy.member (js "missingRoots") = some (texts_json attestation.missing_roots)
  sealed_at : string_member "sealedAt" document = some (js_text attestation.sealed_at)

/-- What only the reader wants of an attestation. -/
structure AttestationLimits (document identity provider policy : Json)
    (attestation : ImageAttestationV1) : Prop where
  known : KnownMembers document Attestation.ROOT_FIELDS
  identity_known : KnownMembers identity Attestation.IDENTITY_FIELDS
  provider_known : KnownMembers provider Attestation.PROVIDER_FIELDS
  policy_known : KnownMembers policy Attestation.ARTIFACT_POLICY_FIELDS
  provider_id : ShownText attestation.provider_id
  lean_toolchain : ShownText attestation.identity.lean_toolchain
  target_platform : ShownText attestation.identity.target_platform
  roots_counted : attestation.missing_roots.length ≤ MAX_MISSING_ARTIFACT_ROOTS
  roots_short : ∀ root ∈ attestation.missing_roots, ShownText root
  sealed_at : valid_canonical_timestamp attestation.sealed_at = true

theorem has_record_of {name : String} {test : Json → Bool} {document : Json}
    {entries : List (JsString × Json)} (h : document.member (js name) = some (.object entries)) :
    has_record name test document = test (.object entries) := by
  unfold has_record
  rw [h]
  rfl

theorem has_number_of {name : String} {test : Str → Bool} {document : Json} {number : JsonNumber}
    (h : document.member (js name) = some (.number number)) :
    has_number name test document = test number.text := by
  unfold has_number
  rw [h]

theorem js_text_eq_nil {text : Str} : js_text text = [] ↔ text = [] := by
  rw [show ([] : JsString) = js_text [] from rfl]
  exact js_text_injective.eq_iff

/-- The writer's validator, of an identity with a known content. -/
theorem valid_identity_same {document : Json} {identity : ImageIdentityV1}
    (h : SameIdentity document identity) : valid_image_identity document = true ↔
      (identity.lean_toolchain ≠ [] ∧ identity.target_platform ≠ []) ∧
        IsRevision identity.lean_compiler_githash ∧ IsRevision identity.mathlib_revision := by
  have hfilled : ∀ text : Str, (!(js_text text).isEmpty) = true ↔ text ≠ [] := fun text => by
    rw [Bool.not_eq_true', List.isEmpty_eq_false_iff, ne_eq, js_text_eq_nil]
  unfold valid_image_identity
  rw [h.schema_version, has_string_of h.lean_toolchain, has_string_of h.lean_compiler_githash,
    has_string_of h.mathlib_revision, has_string_of h.canonical_manifest_hash,
    has_string_of h.package_source_tree_hash, has_string_of h.build_relevant_config_hash,
    has_string_of h.target_platform]
  simp only [Bool.and_eq_true, hfilled, git_revision_js, sha_pattern_digest, true_and, and_true]
  constructor
  · rintro ⟨⟨⟨htoolchain, hgithash⟩, hmathlib⟩, hplatform⟩
    exact ⟨⟨htoolchain, hplatform⟩, hgithash, hmathlib⟩
  · rintro ⟨⟨htoolchain, hplatform⟩, hgithash, hmathlib⟩
    exact ⟨⟨⟨htoolchain, hgithash⟩, hmathlib⟩, hplatform⟩

/-- The roots of a policy, as the writer checks them. -/
theorem every_root_texts (roots : List Str) :
    every_root (roots.map fun root => .string (js_text root)) =
      if [] ∈ roots then none else some (roots.map js_text) := by
  induction roots with
  | nil => rfl
  | cons root roots ih =>
    rw [List.map_cons, every_root]
    by_cases hroot : root = []
    · rw [hroot]
      simp [js_text]
    · have hfilled : (js_text root).isEmpty = false := by
        rw [List.isEmpty_eq_false_iff, ne_eq, js_text_eq_nil]
        exact hroot
      have hmem : ([] ∈ root :: roots) ↔ [] ∈ roots := by
        rw [List.mem_cons]
        exact ⟨fun h => h.resolve_left fun heq => hroot heq.symm, .inr⟩
      rw [hfilled, ih]
      by_cases hrest : [] ∈ roots
      · simp [hrest]
      · simp [hrest, Ne.symm hroot]

theorem valid_policy_same {policy : Json} {roots : List Str}
    (h : policy.member (js "missingRoots") = some (texts_json roots)) :
    valid_artifact_policy policy = true ↔
      (∀ root ∈ roots, root ≠ []) ∧ StrictlySorted byte_key roots := by
  unfold valid_artifact_policy
  rw [h, texts_json]
  dsimp only
  rw [every_root_texts]
  by_cases hempty : [] ∈ roots
  · rw [if_pos hempty]
    simp only [Option.any_none, Bool.false_eq_true, false_iff, not_and]
    exact fun hall => absurd rfl (hall [] hempty)
  · rw [if_neg hempty, Option.any_some, is_canonical_list_js]
    constructor
    · exact fun hsorted => ⟨fun root hroot heq => hempty (heq ▸ hroot), hsorted⟩
    · exact fun hboth => hboth.2

/-! ## The fields of an attestation -/

section Objects

variable {entries : List (JsString × Json)} {root : Entries}

/-- A field that is an object. -/
theorem get_object_iff (h : (Json.object entries).Denotes (.Object root)) (field : String)
    {inner : Entries} : get root field = some (.Object inner) ↔
      ∃ members, (Json.object entries).member (js field) = some (.object members) ∧
        (Json.object members).Denotes (.Object inner) := by
  rw [get_eq_some_iff h]
  constructor
  · rintro ⟨value, hmember, hvalue⟩
    obtain ⟨members, rfl⟩ := denotes_object hvalue
    exact ⟨members, hmember, hvalue⟩
  · rintro ⟨members, hmember, hvalue⟩
    exact ⟨_, hmember, hvalue⟩

theorem identity_fields_iff (h : (Json.object entries).Denotes (.Object root))
    {identity : ImageIdentityV1} : IdentityFields root identity ↔
      SameIdentity (.object entries) identity ∧
        KnownMembers (.object entries) Attestation.IDENTITY_FIELDS := by
  constructor
  · intro hfields
    exact ⟨⟨(get_one_iff h _).mp hfields.schema_version, (get_text_iff h _).mp hfields.lean_toolchain,
      (get_text_iff h _).mp hfields.lean_compiler_githash,
      (get_text_iff h _).mp hfields.mathlib_revision,
      (get_text_iff h _).mp hfields.canonical_manifest_hash,
      (get_text_iff h _).mp hfields.package_source_tree_hash,
      (get_text_iff h _).mp hfields.build_relevant_config_hash,
      (get_text_iff h _).mp hfields.target_platform⟩, (known_iff h).mp hfields.known⟩
  · rintro ⟨hsame, hknown⟩
    exact ⟨(known_iff h).mpr hknown, (get_one_iff h _).mpr hsame.schema_version,
      (get_text_iff h _).mpr hsame.lean_toolchain, (get_text_iff h _).mpr hsame.lean_compiler_githash,
      (get_text_iff h _).mpr hsame.mathlib_revision,
      (get_text_iff h _).mpr hsame.canonical_manifest_hash,
      (get_text_iff h _).mpr hsame.package_source_tree_hash,
      (get_text_iff h _).mpr hsame.build_relevant_config_hash,
      (get_text_iff h _).mpr hsame.target_platform⟩

theorem provider_fields_iff (h : (Json.object entries).Denotes (.Object root))
    {provider : AttestationProviderV1} : ProviderFields root provider ↔
      string_member "registrySha256" (.object entries) =
          some (js_text provider.registry_sha256.to_string) ∧
        string_member "overridesSha256" (.object entries) =
          some (js_text provider.overrides_sha256.to_string) ∧
        KnownMembers (.object entries) Attestation.PROVIDER_FIELDS := by
  rw [← get_text_iff h, ← get_text_iff h, ← known_iff h]
  constructor
  · exact fun hfields => ⟨hfields.registry_sha256, hfields.overrides_sha256, hfields.known⟩
  · exact fun hfields => ⟨hfields.2.2, hfields.1, hfields.2.1⟩

theorem policy_fields_iff (h : (Json.object entries).Denotes (.Object root)) {roots : List Str} :
    PolicyFields root roots ↔
      (Json.object entries).member (js "missingRoots") = some (texts_json roots) ∧
        KnownMembers (.object entries) Attestation.ARTIFACT_POLICY_FIELDS := by
  rw [← get_texts_iff h, ← known_iff h]
  constructor
  · exact fun hfields => ⟨hfields.missing_roots, hfields.known⟩
  · exact fun hfields => ⟨hfields.2, hfields.1⟩

end Objects

/-! ## The writer's checks of an attestation -/

section Checks

variable {document identity provider policy : Json} {attestation : ImageAttestationV1}

/-- The objects inside an attestation. -/
structure Objects (identity provider policy : Json) : Prop where
  identity : is_record identity = true
  provider : is_record provider = true
  policy : is_record policy = true

theorem has_record_iff {name : String} {test : Json → Bool} {member : Json}
    (h : document.member (js name) = some member) (hrecord : is_record member = true) :
    has_record name test document = test member := by
  unfold has_record
  rw [h]
  dsimp only
  rw [hrecord, Bool.true_and]

/-- The writer's validator, of a document with the content of an attestation. -/
theorem valid_attestation_same (hobjects : Objects identity provider policy) {runtime : Runtime}
    (h : SameAttestation document identity provider policy attestation) :
    valid_attestation runtime document = true ↔
      ((∀ root ∈ attestation.missing_roots, root ≠ []) ∧
        StrictlySorted byte_key attestation.missing_roots) ∧
      ((attestation.identity.lean_toolchain ≠ [] ∧ attestation.identity.target_platform ≠ []) ∧
        IsRevision attestation.identity.lean_compiler_githash ∧
          IsRevision attestation.identity.mathlib_revision) ∧
      is_one "schemaVersion" document = true ∧
      has_string "status" (fun text => decide (text = js "sealed")) document = true ∧
      (runtime.date_parse (js_text attestation.sealed_at)).isSome = true := by
  obtain ⟨number, hnumber, hcount, -⟩ := h.artifact_count
  unfold valid_attestation has_timestamp
  rw [has_record_iff h.policy_object hobjects.policy, has_record_iff h.provider_object hobjects.provider,
    has_record_iff h.identity_object hobjects.identity, has_string_of h.registry_sha256,
    has_string_of h.overrides_sha256, has_string_of h.image_id, has_string_of h.provider_id,
    has_string_of h.dependency_tree_hash, has_string_of h.artifact_tree_hash,
    has_number_of hnumber, hcount, has_string_of h.sealed_at]
  simp only [sha_pattern_digest, Bool.and_true, Bool.and_eq_true, valid_policy_same h.missing_roots,
    valid_identity_same h.identity, and_assoc]

/-- The writer's own checks, of a document with the content of an attestation. -/
theorem attestation_refusal_same
    (h : SameAttestation document identity provider policy attestation) :
    attestation_refusal document = none ↔
      attestation.image_id = Evidence.image_id attestation.identity ∧
        attestation.provider.registry_sha256 = attestation.identity.canonical_manifest_hash := by
  have htexts : ∀ a b : Sha256, js_text a.to_string = js_text b.to_string ↔ a = b := fun a b =>
    (js_text_injective.comp Sha256.to_string_injective).eq_iff
  have hconsistent : is_consistent document = true ↔
      attestation.image_id = Evidence.image_id attestation.identity ∧
        attestation.provider.registry_sha256 = attestation.identity.canonical_manifest_hash := by
    unfold is_consistent
    rw [h.identity_object, h.provider_object]
    dsimp only
    rw [Bool.and_eq_true, decide_eq_true_eq, decide_eq_true_eq, h.image_id, h.registry_sha256,
      h.identity.canonical_manifest_hash, image_id_js h.identity, Option.some.injEq,
      Option.some.injEq, htexts, htexts]
  rw [← hconsistent]
  unfold attestation_refusal
  rw [has_string_of h.image_id, sha_pattern_digest]
  cases is_consistent document <;> simp

end Checks

/-- A member that is an object has a counterpart in its field. -/
theorem get_of_object_member {entries : List (JsString × Json)} {root : Entries}
    (h : (Json.object entries).Denotes (.Object root)) {field : String} {member : Json}
    (hmember : (Json.object entries).member (js field) = some member)
    (hrecord : is_record member = true) : ∃ members inner, member = .object members ∧
      get root field = some (.Object inner) ∧ (Json.object members).Denotes (.Object inner) := by
  obtain ⟨pairs, hpairs, -, -⟩ := object_denotes h
  cases member with
  | object members =>
    obtain ⟨entry, hentry, heq⟩ := Option.map_eq_some_iff.mp hmember
    obtain ⟨pair, -, -, hdenotes⟩ := forall₂_partner hpairs (List.mem_of_find?_eq_some hentry)
    rw [heq] at hdenotes
    obtain ⟨inner, hinner⟩ := root_of_object hdenotes
    rw [hinner] at hdenotes
    exact ⟨members, inner, rfl, (get_object_iff h _).mpr ⟨members, hmember, hdenotes⟩, hdenotes⟩
  | _ => cases hrecord

/-- A valid attestation has its three objects. -/
theorem objects_of_valid {runtime : Runtime} {document identity provider policy : Json}
    {attestation : ImageAttestationV1}
    (h : SameAttestation document identity provider policy attestation)
    (hvalid : valid_attestation runtime document = true) : Objects identity provider policy := by
  unfold valid_attestation has_record at hvalid
  rw [h.policy_object, h.provider_object, h.identity_object] at hvalid
  simp only [Bool.and_eq_true, and_assoc] at hvalid
  obtain ⟨hpolicy, -, hprovider, -, -, hidentity, -⟩ := hvalid
  exact ⟨hidentity, hprovider, hpolicy⟩

/-- What the reader looks at beside the content: that there are no other members, and the marks
of an attestation. -/
structure AttestationMarks (document identity provider policy : Json) : Prop where
  known : KnownMembers document Attestation.ROOT_FIELDS
  identity_known : KnownMembers identity Attestation.IDENTITY_FIELDS
  provider_known : KnownMembers provider Attestation.PROVIDER_FIELDS
  policy_known : KnownMembers policy Attestation.ARTIFACT_POLICY_FIELDS
  schema_version : is_one "schemaVersion" document = true
  status : has_string "status" (fun text => decide (text = js "sealed")) document = true

section Contents

variable {entries : List (JsString × Json)} {root : Entries} {attestation : ImageAttestationV1}

theorem content_of_fields (hv : (Json.object entries).Denotes (.Object root))
    {identity_root provider_root policy_root : Entries}
    (h : AttestationFields root identity_root provider_root policy_root attestation) :
    ∃ identity provider policy,
      SameAttestation (.object entries) identity provider policy attestation ∧
        Objects identity provider policy ∧
        AttestationMarks (.object entries) identity provider policy := by
  obtain ⟨identity, hidentity, hidentity_denotes⟩ := (get_object_iff hv _).mp h.identity_object
  obtain ⟨provider, hprovider, hprovider_denotes⟩ := (get_object_iff hv _).mp h.provider_object
  obtain ⟨policy, hpolicy, hpolicy_denotes⟩ := (get_object_iff hv _).mp h.policy_object
  obtain ⟨hidentity_same, hidentity_known⟩ := (identity_fields_iff hidentity_denotes).mp h.identity
  obtain ⟨hregistry, hoverrides, hprovider_known⟩ :=
    (provider_fields_iff hprovider_denotes).mp h.provider
  obtain ⟨hroots, hpolicy_known⟩ := (policy_fields_iff hpolicy_denotes).mp h.policy
  have hstatus : has_string "status" (fun text => decide (text = js "sealed"))
      (.object entries) = true :=
    (has_string_of ((get_text_iff hv _).mp h.status)).trans (decide_eq_true rfl)
  refine ⟨.object identity, .object provider, .object policy, ?_, ⟨rfl, rfl, rfl⟩,
    ⟨(known_iff hv).mp h.known, hidentity_known, hprovider_known, hpolicy_known,
      (get_one_iff hv _).mp h.schema_version, hstatus⟩⟩
  exact ⟨(get_text_iff hv _).mp h.image_id, (get_text_iff hv _).mp h.provider_id, hidentity,
    hidentity_same, hprovider, hregistry, hoverrides,
    (get_text_iff hv _).mp h.dependency_tree_hash, (get_text_iff hv _).mp h.artifact_tree_hash,
    (count_field_iff hv _).mp h.artifact_count, hpolicy, hroots, (get_text_iff hv _).mp h.sealed_at⟩

theorem fields_of_content (hv : (Json.object entries).Denotes (.Object root))
    {identity provider policy : Json}
    (hsame : SameAttestation (.object entries) identity provider policy attestation)
    (hobjects : Objects identity provider policy)
    (h : AttestationMarks (.object entries) identity provider policy) :
    ∃ identity_root provider_root policy_root,
      AttestationFields root identity_root provider_root policy_root attestation := by
  obtain ⟨identity, identity_root, rfl, hidentity, hidentity_denotes⟩ :=
    get_of_object_member hv hsame.identity_object hobjects.identity
  obtain ⟨provider, provider_root, rfl, hprovider, hprovider_denotes⟩ :=
    get_of_object_member hv hsame.provider_object hobjects.provider
  obtain ⟨policy, policy_root, rfl, hpolicy, hpolicy_denotes⟩ :=
    get_of_object_member hv hsame.policy_object hobjects.policy
  have hsealed : string_member "status" (.object entries) = some (js_text "sealed".toList) := by
    obtain ⟨text, htext, hword⟩ := has_string_iff.mp h.status
    rw [htext, of_decide_eq_true hword]
    rfl
  exact ⟨identity_root, provider_root, policy_root, (known_iff hv).mpr h.known,
    (get_one_iff hv _).mpr h.schema_version, (get_text_iff hv _).mpr hsealed,
    (get_text_iff hv _).mpr hsame.image_id, (get_text_iff hv _).mpr hsame.provider_id, hidentity,
    (identity_fields_iff hidentity_denotes).mpr ⟨hsame.identity, h.identity_known⟩, hprovider,
    (provider_fields_iff hprovider_denotes).mpr
      ⟨hsame.registry_sha256, hsame.overrides_sha256, h.provider_known⟩,
    (get_text_iff hv _).mpr hsame.dependency_tree_hash,
    (get_text_iff hv _).mpr hsame.artifact_tree_hash,
    (count_field_iff hv _).mpr hsame.artifact_count, hpolicy,
    (policy_fields_iff hpolicy_denotes).mpr ⟨hsame.missing_roots, h.policy_known⟩,
    (get_text_iff hv _).mpr hsame.sealed_at⟩

end Contents

/-! ## Published attestations -/

theorem decimal_plain (count : ℕ) : ∀ c ∈ decimal count, number_char c = true := by
  intro c hc
  unfold number_char
  rw [List.all_eq_true.mp (decimal_digits count) c hc, Bool.true_or]

/-- The number of a count. -/
def count_json (count : ℕ) : Json :=
  .number ⟨decimal count, decimal_ne_nil count, decimal_plain count⟩

theorem decimal_number_text (count : ℕ) : NumberText (decimal count) := by
  refine ⟨[], decimal count, [], [], by simp, .inl rfl, ?_, .inl rfl, .inl rfl⟩
  by_cases hzero : count = 0
  · exact .inl (by rw [hzero]; rfl)
  · exact .inr ⟨⟨decimal_ne_nil count, List.all_eq_true.mp (decimal_digits count)⟩,
      decimal_head count (by omega)⟩

theorem count_denotes (name : String) (count : ℕ) :
    MemberDenotes (js name, count_json count) (name.toList, .Number ⟨decimal count⟩) := by
  refine ⟨rfl, ?_⟩
  unfold count_json Json.Denotes
  exact ⟨decimal_number_text count, rfl⟩

theorem object_denotes_member (name : String) {entries : List (JsString × Json)}
    {members : List (Str × StrictJson)}
    (h : (Json.object entries).Denotes (.Object (btree_map members))) :
    MemberDenotes (js name, .object entries) (name.toList, .Object (btree_map members)) := ⟨rfl, h⟩

/-- The document of an identity. -/
def identity_document (identity : ImageIdentityV1) : Json := .object
  [(js "schemaVersion", one_json), text_entry "leanToolchain" identity.lean_toolchain,
    text_entry "leanCompilerGithash" identity.lean_compiler_githash,
    text_entry "mathlibRevision" identity.mathlib_revision,
    text_entry "canonicalManifestHash" identity.canonical_manifest_hash.to_string,
    text_entry "packageSourceTreeHash" identity.package_source_tree_hash.to_string,
    text_entry "buildRelevantConfigHash" identity.build_relevant_config_hash.to_string,
    text_entry "targetPlatform" identity.target_platform]

def identity_fields (identity : ImageIdentityV1) : List (Str × StrictJson) :=
  [one_field "schemaVersion", text_field "leanToolchain" identity.lean_toolchain,
    text_field "leanCompilerGithash" identity.lean_compiler_githash,
    text_field "mathlibRevision" identity.mathlib_revision,
    text_field "canonicalManifestHash" identity.canonical_manifest_hash.to_string,
    text_field "packageSourceTreeHash" identity.package_source_tree_hash.to_string,
    text_field "buildRelevantConfigHash" identity.build_relevant_config_hash.to_string,
    text_field "targetPlatform" identity.target_platform]

theorem identity_document_denotes (identity : ImageIdentityV1) :
    (identity_document identity).Denotes (.Object (btree_map (identity_fields identity))) := by
  apply object_document_denotes
  · exact .cons (one_denotes _) (.cons (text_denotes _ _) (.cons (text_denotes _ _)
      (.cons (text_denotes _ _) (.cons (text_denotes _ _) (.cons (text_denotes _ _)
      (.cons (text_denotes _ _) (.cons (text_denotes _ _) .nil)))))))
  · simp only [identity_fields, text_field, one_field, List.map_cons, List.map_nil]
    decide

theorem identity_document_same (identity : ImageIdentityV1) :
    SameIdentity (identity_document identity) identity :=
  ⟨rfl, rfl, rfl, rfl, rfl, rfl, rfl, rfl⟩

/-- The document of a provider. -/
def provider_document (provider : AttestationProviderV1) : Json := .object
  [text_entry "registrySha256" provider.registry_sha256.to_string,
    text_entry "overridesSha256" provider.overrides_sha256.to_string]

def provider_fields (provider : AttestationProviderV1) : List (Str × StrictJson) :=
  [text_field "registrySha256" provider.registry_sha256.to_string,
    text_field "overridesSha256" provider.overrides_sha256.to_string]

/-- The document of a policy. -/
def policy_document (missing_roots : List Str) : Json :=
  .object [(js "missingRoots", texts_json missing_roots)]

def policy_fields (missing_roots : List Str) : List (Str × StrictJson) :=
  [("missingRoots".toList, .Array (missing_roots.map .String))]

/-- The document of an attestation, with the members in the order of the interface. -/
def attestation_document (attestation : ImageAttestationV1) : Json := .object
  [(js "schemaVersion", one_json), text_entry "imageId" attestation.image_id.to_string,
    text_entry "providerId" attestation.provider_id, text_entry "status" "sealed".toList,
    (js "identity", identity_document attestation.identity),
    (js "provider", provider_document attestation.provider),
    text_entry "dependencyTreeHash" attestation.dependency_tree_hash.to_string,
    text_entry "artifactTreeHash" attestation.artifact_tree_hash.to_string,
    (js "artifactCount", count_json attestation.artifact_count),
    (js "artifactPolicy", policy_document attestation.missing_roots),
    text_entry "sealedAt" attestation.sealed_at]

def attestation_members (attestation : ImageAttestationV1) : List (Str × StrictJson) :=
  [one_field "schemaVersion", text_field "imageId" attestation.image_id.to_string,
    text_field "providerId" attestation.provider_id, text_field "status" "sealed".toList,
    ("identity".toList, .Object (btree_map (identity_fields attestation.identity))),
    ("provider".toList, .Object (btree_map (provider_fields attestation.provider))),
    text_field "dependencyTreeHash" attestation.dependency_tree_hash.to_string,
    text_field "artifactTreeHash" attestation.artifact_tree_hash.to_string,
    ("artifactCount".toList, .Number ⟨decimal attestation.artifact_count⟩),
    ("artifactPolicy".toList, .Object (btree_map (policy_fields attestation.missing_roots))),
    text_field "sealedAt" attestation.sealed_at]

theorem attestation_document_denotes (attestation : ImageAttestationV1) :
    (attestation_document attestation).Denotes
      (.Object (btree_map (attestation_members attestation))) := by
  have hprovider : (provider_document attestation.provider).Denotes
      (.Object (btree_map (provider_fields attestation.provider))) := by
    apply object_document_denotes (.cons (text_denotes _ _) (.cons (text_denotes _ _) .nil))
    simp only [text_field, List.map_cons, List.map_nil]
    decide
  have hpolicy : (policy_document attestation.missing_roots).Denotes
      (.Object (btree_map (policy_fields attestation.missing_roots))) := by
    apply object_document_denotes (.cons (texts_denote _ _) .nil)
    exact List.nodup_singleton _
  have hidentity := identity_document_denotes attestation.identity
  apply object_document_denotes
  · exact .cons (one_denotes _) (.cons (text_denotes _ _) (.cons (text_denotes _ _)
      (.cons (text_denotes _ _) (.cons (object_denotes_member _ hidentity)
      (.cons (object_denotes_member _ hprovider) (.cons (text_denotes _ _)
      (.cons (text_denotes _ _) (.cons (count_denotes _ _) (.cons (object_denotes_member _ hpolicy)
      (.cons (text_denotes _ _) .nil))))))))))
  · simp only [attestation_members, text_field, one_field, List.map_cons, List.map_nil]
    decide

theorem attestation_document_limits {attestation : ImageAttestationV1}
    (h : attestation.missing_roots.length ≤ MAX_MISSING_ARTIFACT_ROOTS) :
    WithinLimits (.Object (btree_map (attestation_members attestation))) := by
  have hsmall := nodes_of_texts attestation.missing_roots
  unfold MAX_MISSING_ARTIFACT_ROOTS at h
  unfold WithinLimits MAX_JSON_DEPTH MAX_JSON_NODES
  rw [Bridge.nodes_of_btree, Bridge.depth_of_btree]
  simp only [attestation_members, text_field, one_field, nodes_of_entries, depth_of_entries]
  rw [Bridge.nodes_of_btree, Bridge.depth_of_btree, Bridge.nodes_of_btree, Bridge.depth_of_btree,
    Bridge.nodes_of_btree, Bridge.depth_of_btree]
  simp only [identity_fields, provider_fields, policy_fields, text_field, one_field,
    nodes_of_entries, depth_of_entries, StrictJson.nodes, StrictJson.depth]
  omega

theorem attestation_document_same {attestation : ImageAttestationV1}
    (h : attestation.artifact_count ≤ MAX_SAFE_JSON_INTEGER) :
    SameAttestation (attestation_document attestation) (identity_document attestation.identity)
      (provider_document attestation.provider) (policy_document attestation.missing_roots)
      attestation := by
  refine ⟨rfl, rfl, rfl, identity_document_same _, rfl, rfl, rfl, rfl, rfl, ⟨_, rfl, ?_, ?_⟩, rfl, rfl,
    rfl⟩
  · unfold is_count
    rw [decimal_canonical, decimal_value_decimal, Bool.true_and, decide_eq_true_eq]
    exact h
  · exact decimal_value_decimal _

/-- An identity of an image. -/
def sample_identity : ImageIdentityV1 where
  lean_toolchain := "leanprover/lean4:v4.32.0".toList
  lean_compiler_githash := List.replicate 40 'a'
  mathlib_revision := List.replicate 40 'b'
  canonical_manifest_hash := digest []
  package_source_tree_hash := digest []
  build_relevant_config_hash := digest []
  target_platform := "x86_64-unknown-linux-gnu".toList

/-- An attestation of the image. -/
def sample_attestation : ImageAttestationV1 where
  image_id := Evidence.image_id sample_identity
  provider_id := "reviewed".toList
  identity := sample_identity
  provider := ⟨digest [], digest []⟩
  dependency_tree_hash := digest []
  artifact_tree_hash := digest []
  artifact_count := 3
  missing_roots := ["Cache".toList, "MathlibTest".toList]
  sealed_at := "2026-02-28T23:59:59.000Z".toList

theorem sample_roots_sorted :
    StrictlySorted byte_key ["Cache".toList, "MathlibTest".toList] := by
  unfold StrictlySorted
  rw [List.pairwise_pair]
  decide

/-! ## Reading an attestation -/

/-- **Attestations.** The reader of the crates accepts a document for an image exactly when the
writer's own validator and its own checks accept it, it names that image and it stays within
the limits that only the reader has; what is read has the content of the document. -/
theorem attestation_read_iff {runtime : Runtime} (hdates : ParsesCanonical runtime) {document : Json}
    {v : StrictJson} (hv : document.Denotes v) (hlimits : WithinLimits v) (requested : Sha256)
    (attestation : ImageAttestationV1) :
    parse_image_attestation (document.stringify 2 0 ++ ['\n']) requested = .ok attestation ↔
      (valid_attestation runtime document = true ∧ attestation_refusal document = none ∧
        attestation.image_id = requested) ∧
      ∃ identity provider policy, SameAttestation document identity provider policy attestation ∧
        AttestationLimits document identity provider policy attestation := by
  have hparse : parse_image_attestation (document.stringify 2 0 ++ ['\n']) requested =
      decode_image_attestation v requested := by
    unfold parse_image_attestation
    rw [stringify_parses hv hlimits]
    rfl
  rw [hparse, decode_image_attestation_eq_ok]
  constructor
  · rintro ⟨root, identity_root, provider_root, policy_root, rfl, hfields, hrules⟩
    obtain ⟨entries, rfl⟩ := denotes_object hv
    obtain ⟨identity, provider, policy, hsame, hobjects, hmarks⟩ := content_of_fields hv hfields
    -- the rules of the reader are the checks of the writer and the limits
    have hvalid := (@valid_attestation_same _ _ _ _ _ hobjects runtime hsame).mpr
      ⟨⟨fun root hroot => (hrules.policy.short root hroot).nonempty, hrules.policy.sorted⟩,
        ⟨⟨hrules.identity.lean_toolchain.nonempty, hrules.identity.target_platform.nonempty⟩,
          hrules.identity.lean_compiler_githash, hrules.identity.mathlib_revision⟩,
        hmarks.schema_version, hmarks.status, hdates _ hrules.sealed_at⟩
    have hrefusal := (attestation_refusal_same hsame).mpr
      ⟨hrules.requested.trans hrules.derived.symm, hrules.registry⟩
    exact ⟨⟨hvalid, hrefusal, hrules.requested⟩, identity, provider, policy, hsame, hmarks.known,
      hmarks.identity_known, hmarks.provider_known, hmarks.policy_known, hrules.provider_id,
      hrules.identity.lean_toolchain, hrules.identity.target_platform, hrules.policy.counted,
      hrules.policy.short, hrules.sealed_at⟩
  · rintro ⟨⟨hvalid, hrefusal, hrequested⟩, identity, provider, policy, hsame, hwithin⟩
    obtain ⟨entries, rfl, -⟩ := valid_attestation_timestamps hvalid
    obtain ⟨root, rfl⟩ := root_of_object hv
    have hobjects := objects_of_valid hsame hvalid
    obtain ⟨⟨-, hsorted⟩, ⟨-, hgithash, hmathlib⟩, hschema, hstatus, -⟩ :=
      (valid_attestation_same hobjects hsame).mp hvalid
    obtain ⟨hderived, hregistry⟩ := (attestation_refusal_same hsame).mp hrefusal
    obtain ⟨identity_root, provider_root, policy_root, hfields⟩ := fields_of_content hv hsame hobjects
      ⟨hwithin.known, hwithin.identity_known, hwithin.provider_known, hwithin.policy_known, hschema,
        hstatus⟩
    exact ⟨root, identity_root, provider_root, policy_root, rfl, hfields,
      ⟨hrequested, hderived.symm.trans hrequested, hregistry, hwithin.provider_id,
        ⟨hwithin.lean_toolchain, hgithash, hmathlib, hwithin.target_platform⟩,
        ⟨hwithin.roots_counted, hwithin.roots_short, hsorted⟩, hwithin.sealed_at⟩⟩

theorem attestation_read_iff_sample :
    parse_image_attestation ((attestation_document sample_attestation).stringify 2 0 ++ ['\n'])
      (Evidence.image_id sample_identity) = .ok sample_attestation := by
  have hsame := attestation_document_same (show sample_attestation.artifact_count ≤ _ by decide)
  have hroots : ∀ root ∈ sample_attestation.missing_roots, ShownText root := by
    intro root hroot
    obtain rfl | rfl := List.mem_pair.mp hroot
    · exact ⟨by decide, by decide, by decide⟩
    · exact ⟨by decide, by decide, by decide⟩
  have hvalid : valid_attestation canonical_runtime (attestation_document sample_attestation) = true :=
    (valid_attestation_same ⟨rfl, rfl, rfl⟩ hsame).mpr
      ⟨⟨fun root hroot => (hroots root hroot).nonempty, sample_roots_sorted⟩,
        ⟨⟨by decide, by decide⟩, ⟨by decide, by decide⟩,
          by decide, by decide⟩, rfl, rfl,
        canonical_runtime_dates _ sample_timestamp_valid⟩
  have hrequested : sample_attestation.image_id = Evidence.image_id sample_identity := by
    simp only [sample_attestation]
  have hrefusal := (attestation_refusal_same hsame).mpr ⟨hrequested, rfl⟩
  exact (attestation_read_iff canonical_runtime_dates (attestation_document_denotes sample_attestation)
    (attestation_document_limits (by decide)) _ sample_attestation).mpr
      ⟨⟨hvalid, hrefusal, hrequested⟩, _, _, _, hsame,
        @known_of_names _ attestation_fields _ rfl (by decide),
        @known_of_names _ identity_members _ rfl (by decide),
        @known_of_names _ ["registrySha256", "overridesSha256"] _ rfl (by decide),
        @known_of_names _ ["missingRoots"] _ rfl (by decide), ⟨by decide, by decide, by decide⟩,
        ⟨by decide, by decide, by decide⟩, ⟨by decide, by decide, by decide⟩, by decide, hroots,
        sample_timestamp_valid⟩

end LeanBun.Documents
