/-
The writers and the readers of bindings and attestations agree.

The two validators are compared on one document and its counterpart. A binding or an
attestation that is accepted by the reader is accepted by the writer's own validator, and
the reader accepts one of these exactly if it stays within the limits that only the reader
has; what it returns is what stands in the document. Both sides derive the same project id
from a path and the same image id from an identity.
-/
import LeanBun.Documents.Readers

set_option autoImplicit false

namespace LeanBun.Documents

open LeanBun.Lib LeanBun.Core LeanBun.Execution LeanBun.Codec LeanBun.Evidence.Stored
open LeanBun.Evidence (get Entries ImageIdentityV1)

/-! ## Digests -/

theorem js_text_append (a b : Str) : js_text (a ++ b) = js_text a ++ js_text b :=
  List.flatMap_append

/-- The hash of a text. -/
theorem hash_string_js (text : Str) :
    hash_string (js_text text) = js_text (digest (as_bytes text)).to_string := by
  unfold hash_string hash_text
  rw [code_points_js_text, List.map_map]
  congr 4
  exact List.map_id text

/-- **Both sides derive the same project id.** -/
theorem project_id_js (path : Str) :
    Execution.project_id (js_text path) = js_text (Core.project_id path).to_string := by
  have hprefix : js "leanbun-project-v1\x00" ++ js_text path =
      js_text ("leanbun-project-v1\x00".toList ++ path) := (js_text_append _ _).symm
  unfold Execution.project_id
  rw [ hprefix, hash_string_js, as_bytes_append]
  rfl

/-- A character is a lower case digit if its units are. -/
theorem lower_hex_code_units (c : Char) : (code_units c).all is_lower_hex_unit = is_lower_hex c := by
  have hchar : is_lower_hex c = true ↔
      (0x30 ≤ c.toNat ∧ c.toNat ≤ 0x39) ∨ (0x61 ≤ c.toNat ∧ c.toNat ≤ 0x66) := by
    unfold is_lower_hex
    rw [decide_eq_true_eq]
    exact Iff.rfl
  rw [Bool.eq_iff_iff, hchar]
  obtain ⟨unit, hunits, hunit⟩ | ⟨high, low, hunits, hhigh, hlow, hlarge⟩ := code_units_cases c
  · rw [hunits, List.all_cons, List.all_nil, Bool.and_true]
    unfold is_lower_hex_unit
    rw [Bool.or_eq_true, decide_eq_true_eq, decide_eq_true_eq, hunit]
  · rw [hunits, List.all_cons, Bool.and_eq_true]
    unfold is_lower_hex_unit
    simp only [Bool.or_eq_true, decide_eq_true_eq]
    omega

theorem lower_hex_js (text : Str) : (js_text text).all is_lower_hex_unit = text.all is_lower_hex := by
  induction text with
  | nil => rfl
  | cons c text ih => rw [js_text_cons, List.all_append, ih, lower_hex_code_units, List.all_cons]

/-- A text of lower case digits has a unit and a byte for each. -/
theorem lower_hex_lengths {text : Str} (h : text.all is_lower_hex = true) :
    (js_text text).length = text.length ∧ byte_len text = text.length := by
  have hsmall : ∀ c ∈ text, c.toNat ≤ 127 := by
    intro c hc
    have hhex := List.all_eq_true.mp h c hc
    unfold is_lower_hex at hhex
    rw [decide_eq_true_eq] at hhex
    have hrange : (0x30 ≤ c.toNat ∧ c.toNat ≤ 0x39) ∨ (0x61 ≤ c.toNat ∧ c.toNat ≤ 0x66) := hhex
    omega
  refine ⟨?_, byte_len_ascii hsmall⟩
  rw [js_text_length]
  have hones : text.map Managed.len_utf16 = text.map fun _ => 1 := by
    apply List.map_congr_left
    intro c hc
    unfold Managed.len_utf16
    rw [if_pos (lt_of_le_of_lt (hsmall c hc) (by decide))]
  rw [hones]
  simp

theorem sha_pattern_digest (digest : Sha256) : sha_pattern (js_text digest.to_string) = true := by
  have hhex : digest.to_string.all is_lower_hex = true := hex_all_lower digest.bytes
  unfold sha_pattern
  rw [lower_hex_js, hhex, (lower_hex_lengths hhex).1, digest.to_string_length]
  rfl

/-- **A revision** is one on both sides or on neither. -/
theorem git_revision_js (text : Str) :
    git_revision_pattern (js_text text) = true ↔ IsRevision text := by
  unfold git_revision_pattern IsRevision
  rw [lower_hex_js, Bool.and_eq_true, decide_eq_true_eq]
  constructor
  · rintro ⟨hlength, hall⟩
    obtain ⟨hunits, hbytes⟩ := lower_hex_lengths hall
    exact ⟨by rw [hbytes, ← hunits, hlength], hall⟩
  · rintro ⟨hlength, hall⟩
    obtain ⟨hunits, hbytes⟩ := lower_hex_lengths hall
    exact ⟨by rw [hunits, ← hbytes, hlength], hall⟩

/-! ## Members that are strings -/

theorem has_string_iff {name : String} {test : JsString → Bool} {document : Json} :
    has_string name test document = true ↔
      ∃ text, string_member name document = some text ∧ test text = true := by
  unfold has_string string_member
  generalize document.member (js name) = member
  match member with
  | some (.string text) => simp
  | none => simp
  | some .null => simp
  | some (.boolean _) => simp
  | some (.number _) => simp
  | some (.array _) => simp
  | some (.object _) => simp

/-- A member with a known text passes a test as the text does. -/
theorem has_string_of {name : String} {test : JsString → Bool} {document : Json} {text : JsString}
    (h : string_member name document = some text) :
    has_string name test document = test text := by
  rw [Bool.eq_iff_iff, has_string_iff]
  simp [h]

theorem denotes_object {document : Json} {root : Entries} (h : document.Denotes (.Object root)) :
    ∃ entries, document = .object entries := by
  cases document with
  | object entries => exact ⟨entries, rfl⟩
  | _ => simp [Json.Denotes] at h

theorem root_of_object {entries : List (JsString × Json)} {v : StrictJson}
    (h : (Json.object entries).Denotes v) : ∃ root, v = .Object root := by
  unfold Json.Denotes at h
  obtain ⟨members, -, -, rfl⟩ := h
  exact ⟨btree_map members, rfl⟩

/-! ## Bindings -/

/-- The content of a binding stands in the document. -/
structure SameBinding (document : Json) (binding : ProjectBindingV1) : Prop where
  project_id : string_member "projectId" document = some (js_text binding.project_id.to_string)
  project_path : string_member "projectPath" document = some (js_text binding.project_path)
  image_id : string_member "imageId" document = some (js_text binding.image_id.to_string)
  manifest_sha256 : string_member "manifestSha256" document =
    some (js_text binding.manifest_sha256.to_string)
  provider_id : string_member "providerId" document = some (js_text binding.provider_id)
  toolchain : string_member "toolchain" document = some (js_text binding.toolchain)
  bound_at : string_member "boundAt" document = some (js_text binding.bound_at)
  last_verified_at : string_member "lastVerifiedAt" document =
    some (js_text binding.last_verified_at)
  allowed_targets : document.member (js "allowedTargets") =
    some (texts_json (binding.allowed_targets.map BuildTarget.as_str))

/-- What only the reader wants of a binding. -/
structure BindingLimits (project : Str) (document : Json) (binding : ProjectBindingV1) : Prop where
  known : KnownMembers document Binding.ROOT_FIELDS
  path_present : project ≠ []
  path_bounded : byte_len project ≤ Evidence.MAX_PATH_BYTES
  provider_id : ShownText binding.provider_id
  toolchain : ShownText binding.toolchain
  bound_at : valid_canonical_timestamp binding.bound_at = true
  last_verified_at : valid_canonical_timestamp binding.last_verified_at = true
  in_order : ¬byte_key binding.last_verified_at < byte_key binding.bound_at
  targets_counted : binding.allowed_targets.length ≤ MAX_ALLOWED_TARGETS

/-- `Date.parse` takes every canonical timestamp. -/
def ParsesCanonical (runtime : Runtime) : Prop :=
  ∀ text, valid_canonical_timestamp text = true → (runtime.date_parse (js_text text)).isSome = true

/-- The targets of a binding, as the writer checks them. -/
theorem every_target_texts (runtime : Runtime) (targets : List BuildTarget) :
    every_target runtime (targets.map fun target => .string (js_text target.as_str)) =
      .ok (some (targets.map fun target => js_text target.as_str)) := by
  induction targets with
  | nil => rfl
  | cons target targets ih =>
    have hvalid : valid_build_target (js_text target.as_str) = true := by
      rw [valid_build_target_js, target.valid]
    rw [List.map_cons, every_target, if_pos hvalid, ih]
    rfl

theorem valid_binding_members_same {runtime : Runtime} {document : Json} {binding : ProjectBindingV1}
    (h : SameBinding document binding) : valid_binding_members runtime document = true ↔
      is_one "schemaVersion" document = true ∧ is_one "policyVersion" document = true ∧
        (runtime.date_parse (js_text binding.bound_at)).isSome = true ∧
        (runtime.date_parse (js_text binding.last_verified_at)).isSome = true := by
  have hproject : sha_pattern (js_text binding.project_id.to_string) = true := sha_pattern_digest _
  have himage : sha_pattern (js_text binding.image_id.to_string) = true := sha_pattern_digest _
  have hmanifest : sha_pattern (js_text binding.manifest_sha256.to_string) = true :=
    sha_pattern_digest _
  unfold valid_binding_members has_timestamp
  rw [has_string_of h.project_id, has_string_of h.project_path, has_string_of h.image_id,
    has_string_of h.provider_id, has_string_of h.bound_at, has_string_of h.manifest_sha256,
    has_string_of h.toolchain, has_string_of h.last_verified_at, hproject, himage, hmanifest]
  simp only [Bool.and_true, Bool.and_eq_true, and_assoc]

/-- The writer's validator, of a document with the content of a binding. -/
theorem valid_binding_same {runtime : Runtime} {document : Json} {binding : ProjectBindingV1}
    (h : SameBinding document binding) : valid_binding runtime document = .ok true ↔
      (binding.allowed_targets ≠ [] ∧
        StrictlySorted byte_key (binding.allowed_targets.map BuildTarget.as_str)) ∧
      is_one "schemaVersion" document = true ∧ is_one "policyVersion" document = true ∧
        (runtime.date_parse (js_text binding.bound_at)).isSome = true ∧
        (runtime.date_parse (js_text binding.last_verified_at)).isSome = true := by
  have htargets : document.member (js "allowedTargets") =
      some (.array (binding.allowed_targets.map fun target => .string (js_text target.as_str))) := by
    rw [h.allowed_targets, texts_json, List.map_map]
    rfl
  have hlist : is_canonical_list (binding.allowed_targets.map fun target => js_text target.as_str) =
      true ↔ StrictlySorted byte_key (binding.allowed_targets.map BuildTarget.as_str) := by
    rw [← is_canonical_list_js, List.map_map]
    rfl
  have hempty : (!(binding.allowed_targets.map fun target => js_text target.as_str).isEmpty) = true ↔
      binding.allowed_targets ≠ [] := by
    cases binding.allowed_targets <;> simp
  have hvalid : valid_binding runtime document =
      .ok (!(binding.allowed_targets.map fun target => js_text target.as_str).isEmpty &&
        is_canonical_list (binding.allowed_targets.map fun target => js_text target.as_str) &&
        valid_binding_members runtime document) := by
    unfold valid_binding
    rw [htargets]
    simp only [every_target_texts, Except.map]
  rw [hvalid, Except.ok.injEq, Bool.and_eq_true, Bool.and_eq_true, hempty, hlist,
    valid_binding_members_same h]

/-- The writer's own check, of a document with the content of a binding. -/
theorem binding_refusal_same {document : Json} {binding : ProjectBindingV1}
    (h : SameBinding document binding) (project : Str) :
    binding_refusal (js_text project) document = none ↔
      binding.project_path = project ∧ binding.project_id = Core.project_id project := by
  have hpath : js_text binding.project_path = js_text project ↔ binding.project_path = project :=
    js_text_injective.eq_iff
  have hid : js_text binding.project_id.to_string = js_text (Core.project_id project).to_string ↔
      binding.project_id = Core.project_id project := by
    constructor
    · intro htexts
      have hdigests := Sha256.to_string_injective (js_text_injective htexts)
      exact congrArg ProjectId.mk hdigests
    · intro hsame
      rw [hsame]
  unfold binding_refusal
  rw [has_string_of h.project_path, has_string_of h.project_id, project_id_js, ← hpath, ← hid]
  split
  · rename_i hboth
    rw [Bool.and_eq_true, decide_eq_true_eq, decide_eq_true_eq] at hboth
    exact ⟨fun _ => hboth, fun _ => rfl⟩
  · rename_i hnot
    rw [Bool.and_eq_true, decide_eq_true_eq, decide_eq_true_eq] at hnot
    exact ⟨fun h => (Option.some_ne_none _ h).elim, fun hboth => absurd hboth hnot⟩

/-- The fields of a binding that is read, as members of its document. -/
theorem binding_fields_iff {entries : List (JsString × Json)} {root : Entries}
    (h : (Json.object entries).Denotes (.Object root)) {binding : ProjectBindingV1} :
    BindingFields root binding ↔ SameBinding (.object entries) binding ∧
      KnownMembers (.object entries) Binding.ROOT_FIELDS ∧
        is_one "schemaVersion" (.object entries) = true ∧
          is_one "policyVersion" (.object entries) = true := by
  have htargets : (Json.object entries).member (js "allowedTargets") =
      some (texts_json (binding.allowed_targets.map BuildTarget.as_str)) ↔
      get root "allowedTargets" =
        some (.Array (binding.allowed_targets.map fun target => .String target.as_str)) := by
    rw [← get_texts_iff h, List.map_map]
    rfl
  constructor
  · intro hfields
    exact ⟨⟨(get_text_iff h _).mp hfields.project_id, (get_text_iff h _).mp hfields.project_path,
      (get_text_iff h _).mp hfields.image_id, (get_text_iff h _).mp hfields.manifest_sha256,
      (get_text_iff h _).mp hfields.provider_id, (get_text_iff h _).mp hfields.toolchain,
      (get_text_iff h _).mp hfields.bound_at, (get_text_iff h _).mp hfields.last_verified_at,
      htargets.mpr hfields.allowed_targets⟩, (known_iff h).mp hfields.known,
      (get_one_iff h _).mp hfields.schema_version, (get_one_iff h _).mp hfields.policy_version⟩
  · rintro ⟨hsame, hknown, hschema, hpolicy⟩
    exact ⟨(known_iff h).mpr hknown, (get_one_iff h _).mpr hschema,
      (get_one_iff h _).mpr hpolicy, (get_text_iff h _).mpr hsame.project_id,
      (get_text_iff h _).mpr hsame.project_path, (get_text_iff h _).mpr hsame.image_id,
      (get_text_iff h _).mpr hsame.manifest_sha256, (get_text_iff h _).mpr hsame.provider_id,
      (get_text_iff h _).mpr hsame.toolchain, (get_text_iff h _).mpr hsame.bound_at,
      (get_text_iff h _).mpr hsame.last_verified_at, htargets.mp hsame.allowed_targets⟩

/-! ## Published documents -/

theorem one_char_plain : ∀ c ∈ ['1'], number_char c = true := by decide

/-- The number one. -/
def one_json : Json := .number ⟨['1'], List.cons_ne_nil _ _, one_char_plain⟩

/-- A member that is a text. -/
def text_entry (name : String) (text : Str) : JsString × Json := (js name, .string (js_text text))

/-- The document of a binding, with the members in the order of the interface. -/
def binding_document (binding : ProjectBindingV1) : Json := .object
  [(js "schemaVersion", one_json), text_entry "projectId" binding.project_id.to_string,
    text_entry "projectPath" binding.project_path, text_entry "imageId" binding.image_id.to_string,
    text_entry "providerId" binding.provider_id, text_entry "boundAt" binding.bound_at,
    text_entry "manifestSha256" binding.manifest_sha256.to_string,
    text_entry "toolchain" binding.toolchain, (js "policyVersion", one_json),
    (js "allowedTargets", texts_json (binding.allowed_targets.map BuildTarget.as_str)),
    text_entry "lastVerifiedAt" binding.last_verified_at]

theorem binding_document_same (binding : ProjectBindingV1) :
    SameBinding (binding_document binding) binding :=
  ⟨rfl, rfl, rfl, rfl, rfl, rfl, rfl, rfl, rfl⟩

def text_field (name : String) (text : Str) : Str × StrictJson := (name.toList, .String text)

def one_field (name : String) : Str × StrictJson := (name.toList, .Number ⟨['1']⟩)

/-- Its counterpart. -/
def binding_members (binding : ProjectBindingV1) : List (Str × StrictJson) :=
  [one_field "schemaVersion", text_field "projectId" binding.project_id.to_string,
    text_field "projectPath" binding.project_path, text_field "imageId" binding.image_id.to_string,
    text_field "providerId" binding.provider_id, text_field "boundAt" binding.bound_at,
    text_field "manifestSha256" binding.manifest_sha256.to_string,
    text_field "toolchain" binding.toolchain, one_field "policyVersion",
    ("allowedTargets".toList, .Array ((binding.allowed_targets.map BuildTarget.as_str).map .String)),
    text_field "lastVerifiedAt" binding.last_verified_at]

/-- A member and its counterpart. -/
def MemberDenotes (entry : JsString × Json) (member : Str × StrictJson) : Prop :=
  entry.1 = js_text member.1 ∧ entry.2.Denotes member.2

theorem text_denotes (name : String) (text : Str) :
    MemberDenotes (text_entry name text) (text_field name text) := ⟨rfl, denotes_string.mpr rfl⟩

theorem one_denotes (name : String) : MemberDenotes (js name, one_json) (one_field name) :=
  ⟨rfl, denotes_one.mpr ⟨_, rfl, rfl⟩⟩

theorem texts_denote (name : String) (texts : List Str) :
    MemberDenotes (js name, texts_json texts) (name.toList, .Array (texts.map .String)) :=
  ⟨rfl, denotes_texts.mpr rfl⟩

theorem object_document_denotes {entries : List (JsString × Json)} {members : List (Str × StrictJson)}
    (h : List.Forall₂ MemberDenotes entries members) (hnames : (members.map Prod.fst).Nodup) :
    (Json.object entries).Denotes (.Object (btree_map members)) := by
  unfold Json.Denotes
  exact ⟨members, members_denote_iff.mpr h, hnames, rfl⟩

theorem binding_document_denotes (binding : ProjectBindingV1) :
    (binding_document binding).Denotes (.Object (btree_map (binding_members binding))) := by
  apply object_document_denotes
  · exact .cons (one_denotes _) (.cons (text_denotes _ _) (.cons (text_denotes _ _)
      (.cons (text_denotes _ _) (.cons (text_denotes _ _) (.cons (text_denotes _ _)
      (.cons (text_denotes _ _) (.cons (text_denotes _ _) (.cons (one_denotes _)
      (.cons (texts_denote _ _) (.cons (text_denotes _ _) .nil))))))))))
  · simp only [binding_members, text_field, one_field, List.map_cons, List.map_nil]
    decide

theorem nodes_of_texts (texts : List Str) : nodes_of_list (texts.map .String) = texts.length ∧
    depth_of_list (texts.map .String) ≤ 1 := by
  induction texts with
  | nil => exact ⟨rfl, Nat.zero_le 1⟩
  | cons text texts ih =>
    simp only [List.map_cons, nodes_of_list, depth_of_list, StrictJson.nodes, StrictJson.depth,
      List.length_cons]
    omega

theorem binding_document_limits {binding : ProjectBindingV1}
    (h : binding.allowed_targets.length ≤ MAX_ALLOWED_TARGETS) :
    WithinLimits (.Object (btree_map (binding_members binding))) := by
  have hsmall := nodes_of_texts (binding.allowed_targets.map BuildTarget.as_str)
  unfold MAX_ALLOWED_TARGETS at h
  unfold WithinLimits MAX_JSON_DEPTH MAX_JSON_NODES
  rw [List.length_map] at hsmall
  rw [Bridge.nodes_of_btree, Bridge.depth_of_btree]
  simp only [binding_members, text_field, one_field, nodes_of_entries, depth_of_entries,
    StrictJson.nodes, StrictJson.depth]
  omega

theorem known_of_names {entries : List (JsString × Json)} {names fields : List String}
    (h : entries.map Prod.fst = names.map js) (hnames : names ⊆ fields) :
    KnownMembers (.object entries) fields := by
  intro entries' heq entry hentry
  rw [← Json.object.inj heq] at hentry
  have hkey := List.mem_map_of_mem (f := Prod.fst) hentry
  rw [h, List.mem_map] at hkey
  obtain ⟨name, hname, hjs⟩ := hkey
  exact ⟨name, hnames hname, hjs⟩

/-- `Date.parse` of canonical timestamps: the days of the civil calendar and the time of day. -/
def time_value (text : Str) : ℤ :=
  let number := fun start stop => decimal_value (slice text start stop)
  let month := number 5 7
  let year := if month ≤ 2 then number 0 4 - 1 else number 0 4
  let day_of_year := (153 * (if month ≤ 2 then month + 9 else month - 3) + 2) / 5 + number 8 10 - 1
  let day_of_era := year % 400 * 365 + year % 400 / 4 - year % 400 / 100 + day_of_year
  let days : ℤ := (year / 400 * 146097 + day_of_era : ℕ) - 719468
  days * 86400000 + (number 11 13 * 3600000 + number 14 16 * 60000 + number 17 19 * 1000 +
    number 20 23 : ℕ)

/-- A runtime that knows canonical timestamps. -/
def canonical_runtime : Runtime where
  json_parse _ := .error []
  date_parse value := ((code_points value).mapM Sum.getLeft?).bind fun text =>
    if valid_canonical_timestamp text then some (time_value text) else none
  not_utf8 := []
  not_a_string _ := none

theorem canonical_runtime_dates : ParsesCanonical canonical_runtime := by
  intro text h
  have htext : ∀ chars : Str, (chars.map Sum.inl).mapM (Sum.getLeft? : Char ⊕ UInt16 → Option Char) =
      some chars := by
    intro chars
    induction chars with
    | nil => rfl
    | cons c chars ih => simp [List.mapM_cons, ih]
  unfold canonical_runtime
  dsimp only
  rw [code_points_js_text, htext, Option.bind_some, if_pos h]
  rfl

theorem sample_target_valid : Managed.valid_build_target "Main".toList = true := by decide

/-- A binding of the project at `/p`. -/
def sample_binding : ProjectBindingV1 where
  project_id := Core.project_id "/p".toList
  project_path := "/p".toList
  image_id := digest []
  provider_id := "reviewed".toList
  bound_at := "2026-02-28T23:59:59.000Z".toList
  manifest_sha256 := digest []
  toolchain := "leanprover/lean4:v4.32.0".toList
  allowed_targets := [⟨"Main".toList, sample_target_valid⟩]
  last_verified_at := "2026-02-28T23:59:59.000Z".toList

theorem sample_timestamp_valid :
    valid_canonical_timestamp "2026-02-28T23:59:59.000Z".toList = true := by decide

/-! ## Reading a binding -/

/-- **Bindings.** The reader of the crates accepts a document exactly when the writer's own
validator and its own check of the project accept it and it stays within the limits that only
the reader has; the binding that is read has the content of the document. -/
theorem binding_read_iff {runtime : Runtime} (hdates : ParsesCanonical runtime) {document : Json}
    {v : StrictJson} (hv : document.Denotes v) (hlimits : WithinLimits v) (project : Str)
    (binding : ProjectBindingV1) :
    parse_project_binding (document.stringify 2 0 ++ ['\n']) project = .ok binding ↔
      (valid_binding runtime document = .ok true ∧
        binding_refusal (js_text project) document = none) ∧
      SameBinding document binding ∧ BindingLimits project document binding := by
  have hparse : parse_project_binding (document.stringify 2 0 ++ ['\n']) project =
      decode_project_binding v project := by
    unfold parse_project_binding
    rw [stringify_parses hv hlimits]
    rfl
  rw [hparse, decode_project_binding_eq_ok]
  constructor
  · rintro ⟨root, rfl, hfields, hrules⟩
    obtain ⟨entries, rfl⟩ := denotes_object hv
    obtain ⟨hsame, hknown, hschema, hpolicy⟩ := (binding_fields_iff hv).mp hfields
    -- the rules of the reader are the checks of the writer and the limits
    refine ⟨⟨(valid_binding_same hsame).mpr ⟨⟨hrules.targets_present, hrules.targets_sorted⟩,
      hschema, hpolicy, hdates _ hrules.bound_at, hdates _ hrules.last_verified_at⟩,
      (binding_refusal_same hsame project).mpr ⟨hrules.path, hrules.project_id⟩⟩, hsame, ?_⟩
    exact ⟨hknown, hrules.path_present, hrules.path_bounded, hrules.provider_id,
      hrules.toolchain, hrules.bound_at, hrules.last_verified_at, hrules.in_order,
      hrules.targets_counted⟩
  · rintro ⟨⟨hvalid, hrefusal⟩, hsame, hwithin⟩
    obtain ⟨entries, rfl, -⟩ := valid_binding_timestamps hvalid
    obtain ⟨root, rfl⟩ := root_of_object hv
    obtain ⟨⟨hpresent, hsorted⟩, hschema, hpolicy, -⟩ := (valid_binding_same hsame).mp hvalid
    obtain ⟨hpath, hid⟩ := (binding_refusal_same hsame project).mp hrefusal
    exact ⟨root, rfl, (binding_fields_iff hv).mpr ⟨hsame, hwithin.known, hschema, hpolicy⟩,
      ⟨hpath, hwithin.path_present, hwithin.path_bounded, hid, hwithin.provider_id,
        hwithin.toolchain, hwithin.bound_at, hwithin.last_verified_at, hwithin.in_order, hpresent,
        hwithin.targets_counted, hsorted⟩⟩

theorem binding_read_iff_sample :
    parse_project_binding ((binding_document sample_binding).stringify 2 0 ++ ['\n']) "/p".toList =
      .ok sample_binding := by
  have hsame := binding_document_same sample_binding
  have hdates := canonical_runtime_dates _ sample_timestamp_valid
  have hrefusal : binding_refusal (js_text "/p".toList) (binding_document sample_binding) = none :=
    (binding_refusal_same hsame _).mpr ⟨rfl, rfl⟩
  have hknown : KnownMembers (binding_document sample_binding) Binding.ROOT_FIELDS :=
    @known_of_names _ binding_fields _ rfl (by decide)
  exact (binding_read_iff canonical_runtime_dates (binding_document_denotes sample_binding)
    (binding_document_limits (by decide)) "/p".toList sample_binding).mpr
      ⟨⟨(valid_binding_same hsame).mpr ⟨⟨by decide, List.pairwise_singleton _ _⟩, rfl, rfl, hdates,
        hdates⟩, hrefusal⟩, hsame, hknown, by decide, by decide, ⟨by decide, by decide, by decide⟩,
        ⟨by decide, by decide, by decide⟩, sample_timestamp_valid, sample_timestamp_valid,
        lt_irrefl _, by decide⟩

/-! ## Identities -/

/-- The content of an image identity stands in the document. -/
structure SameIdentity (document : Json) (identity : ImageIdentityV1) : Prop where
  schema_version : is_one "schemaVersion" document = true
  lean_toolchain : string_member "leanToolchain" document = some (js_text identity.lean_toolchain)
  lean_compiler_githash : string_member "leanCompilerGithash" document =
    some (js_text identity.lean_compiler_githash)
  mathlib_revision : string_member "mathlibRevision" document =
    some (js_text identity.mathlib_revision)
  canonical_manifest_hash : string_member "canonicalManifestHash" document =
    some (js_text identity.canonical_manifest_hash.to_string)
  package_source_tree_hash : string_member "packageSourceTreeHash" document =
    some (js_text identity.package_source_tree_hash.to_string)
  build_relevant_config_hash : string_member "buildRelevantConfigHash" document =
    some (js_text identity.build_relevant_config_hash.to_string)
  target_platform : string_member "targetPlatform" document =
    some (js_text identity.target_platform)

theorem member_of_string {name : String} {document : Json} {text : JsString}
    (h : string_member name document = some text) :
    document.member (js name) = some (.string text) := by
  unfold string_member at h
  split at h
  · rename_i found hmember
    rw [hmember, Option.some.inj h]
  · cases h

theorem member_of_one {name : String} {document : Json} (h : is_one name document = true) :
    ∃ number, document.member (js name) = some (.number number) ∧ number.text = ['1'] := by
  unfold is_one has_number at h
  split at h
  · rename_i number hmember
    exact ⟨number, hmember, of_decide_eq_true h⟩
  · cases h

theorem member_entry_eq {name : String} {document member : Json}
    (h : document.member (js name) = some member) :
    member_entry document name = some (js name, member) := by
  unfold member_entry
  rw [h]
  rfl

/-- A member of a compact object, with its text. -/
theorem member_text_js (name : String) (value : Json) :
    member_text 0 0 (js name, value) = Plan.key_text name ++ compact value := by
  unfold member_text Plan.key_text
  rw [show js name = js_text name.toList from rfl, quoted_js_text, List.append_assoc]
  rfl

/-- **A compact object** is the text that the crates write for its members. -/
theorem compact_object_text (entries : List (String × Json)) :
    compact (.object (entries.map fun entry => (js entry.1, entry.2))) =
      Plan.object_text (entries.map fun entry => (entry.1, compact entry.2)) := by
  have hrest : ∀ rest : List (String × Json),
      members_text 0 0 (rest.map fun entry => (js entry.1, entry.2)) =
        (rest.map fun entry => Plan.key_text entry.1 ++ compact entry.2).flatMap
          fun text => ',' :: text := by
    intro rest
    induction rest with
    | nil => rfl
    | cons entry rest ih =>
      rw [List.map_cons, List.map_cons, List.flatMap_cons, ← ih, members_text, member_text_js]
      rfl
  unfold Plan.object_text
  rw [List.map_map]
  cases entries with
  | nil => rfl
  | cons entry entries =>
    rw [List.map_cons, List.map_cons, intercalate_comma]
    show '\x7b' :: ([] ++ (member_text 0 0 (js entry.1, entry.2) ++
      (members_text 0 0 (entries.map fun entry => (js entry.1, entry.2)) ++ ([] ++ ['\x7d'])))) = _
    rw [member_text_js, hrest]
    simp only [List.nil_append, List.append_assoc, Function.comp_apply, Function.comp_def]

theorem compact_js_text (text : Str) : compact (.string (js_text text)) = Bridge.json_string text := by
  unfold compact
  rw [Json.stringify, quoted_js_text]

theorem compact_digest (digest : Sha256) :
    compact (.string (js_text digest.to_string)) = Evidence.quoted digest.to_string := by
  rw [compact_js_text, Evidence.quoted_hash]

/-- **Both sides derive the same image id** from an identity. -/
theorem image_id_js {document : Json} {identity : ImageIdentityV1}
    (h : SameIdentity document identity) :
    image_id document = js_text (Evidence.image_id identity).to_string := by
  obtain ⟨number, hschema, hone⟩ := member_of_one h.schema_version
  have hentries : identity_members.filterMap (member_entry document) =
      ([("schemaVersion", .number number), ("leanToolchain", .string (js_text identity.lean_toolchain)),
        ("leanCompilerGithash", .string (js_text identity.lean_compiler_githash)),
        ("mathlibRevision", .string (js_text identity.mathlib_revision)),
        ("canonicalManifestHash", .string (js_text identity.canonical_manifest_hash.to_string)),
        ("packageSourceTreeHash", .string (js_text identity.package_source_tree_hash.to_string)),
        ("buildRelevantConfigHash",
          .string (js_text identity.build_relevant_config_hash.to_string)),
        ("targetPlatform", .string (js_text identity.target_platform))] : List (String × Json)).map
          fun entry => (js entry.1, entry.2) := by
    unfold identity_members
    simp only [List.filterMap_cons, List.filterMap_nil, member_entry_eq hschema,
      member_entry_eq (member_of_string h.lean_toolchain),
      member_entry_eq (member_of_string h.lean_compiler_githash),
      member_entry_eq (member_of_string h.mathlib_revision),
      member_entry_eq (member_of_string h.canonical_manifest_hash),
      member_entry_eq (member_of_string h.package_source_tree_hash),
      member_entry_eq (member_of_string h.build_relevant_config_hash),
      member_entry_eq (member_of_string h.target_platform), List.map_cons, List.map_nil]
  have hnumber : compact (.number number) = decimal 1 := by
    unfold compact
    rw [Json.stringify, hone]
    decide
  have htext : compact (.object (identity_members.filterMap (member_entry document))) =
      Evidence.image_id_text identity := by
    rw [hentries, compact_object_text]
    unfold Evidence.image_id_text
    simp only [List.map_cons, List.map_nil, hnumber, compact_digest]
    simp only [compact_js_text]
  unfold image_id hash_text
  rw [htext]
  rfl

end LeanBun.Documents
