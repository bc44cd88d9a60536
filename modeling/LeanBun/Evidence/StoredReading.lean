/-
What the readers of stored documents accept.

A reader takes its fields one after the other; here the whole of its conditions is told at
once, with the result it returns. The loop over a sorted list accepts exactly the lists in
strict order whose texts are all decoded.
-/
import LeanBun.Evidence.StoredDocuments

set_option autoImplicit false

namespace LeanBun.Evidence.Stored

open LeanBun.Lib LeanBun.Core LeanBun.Codec
open LeanBun.Managed (valid_build_target)

/-! ## Fields -/

section Fields

variable {code : DiagnosticCode} {root : Entries} {field label : String}

theorem object_eq_ok {value : StrictJson} {entries : Entries} :
    object code value label = .ok entries ↔ value = .Object entries := by
  cases value <;> simp [object]

theorem required_object_eq_ok {entries : Entries} :
    required_object code root field label = .ok entries ↔
      get root field = some (.Object entries) := by
  unfold required_object
  cases get root field with
  | none => simp
  | some value => simp [object_eq_ok]

/-- Every field is known. -/
def Known (root : Entries) (allowed : List String) : Prop :=
  ∀ entry ∈ root, ∃ field ∈ allowed, field.toList = entry.1

theorem reject_unknown_fields_eq_ok {allowed : List String} {u : Unit} :
    reject_unknown_fields code root allowed label = .ok u ↔ Known root allowed := by
  unfold reject_unknown_fields Known
  cases hfind : root.find? fun entry => !allowed.any fun field => decide (field.toList = entry.1) with
  | none =>
    rw [List.find?_eq_none] at hfind
    simpa using hfind
  | some entry =>
    have hmem := List.mem_of_find?_eq_some hfind
    have hunknown := List.find?_some hfind
    simp only [Bool.not_eq_true', List.any_eq_false, decide_eq_true_eq] at hunknown
    simp only [reduceCtorEq, false_iff]
    intro hall
    obtain ⟨field, hfield, heq⟩ := hall entry hmem
    exact hunknown field hfield heq

theorem required_one_eq_ok {u : Unit} : required_one code root field label = .ok u ↔
    get root field = some (.Number ⟨['1']⟩) := by
  unfold required_one
  split
  · rename_i number hget
    rw [hget]
    obtain ⟨lexical⟩ := number
    by_cases hone : lexical = ['1']
    · simp [hone]
    · simp [hone]
  · rename_i value hother hget
    rw [hget]
    have hne : value ≠ .Number ⟨['1']⟩ := fun h => hother _ h
    simp [hne]
  · rename_i hget
    simp [hget]

theorem required_string_eq_ok {maximum_bytes : ℕ} {text : Str} :
    required_string code root field maximum_bytes label = .ok text ↔
      get root field = some (.String text) ∧ byte_len text ≤ maximum_bytes := by
  unfold required_string
  split
  · rename_i value hget
    rw [hget]
    by_cases hlen : byte_len value ≤ maximum_bytes
    · rw [if_pos hlen]
      constructor
      · intro h
        cases h
        exact ⟨rfl, hlen⟩
      · rintro ⟨h, -⟩
        cases h
        rfl
    · rw [if_neg hlen]
      constructor
      · intro h
        cases h
      · rintro ⟨h, hle⟩
        cases h
        exact absurd hle hlen
  · rename_i value hother hget
    rw [hget]
    have hne : value ≠ .String text := fun h => hother _ h
    simp [hne]
  · rename_i hget
    simp [hget]

theorem required_nonempty_string_eq_ok {maximum_bytes : ℕ} {text : Str} :
    required_nonempty_string code root field maximum_bytes label = .ok text ↔
      get root field = some (.String text) ∧ byte_len text ≤ maximum_bytes ∧ text ≠ [] := by
  unfold required_nonempty_string
  simp only [bind_eq_ok, required_string_eq_ok]
  constructor
  · rintro ⟨value, ⟨hget, hlen⟩, ⟨hne⟩, -, h⟩
    cases h
    exact ⟨hget, hlen, hne⟩
  · rintro ⟨hget, hlen, hne⟩
    exact ⟨text, ⟨hget, hlen⟩, ⟨hne⟩, ensure_ok hne _, rfl⟩

theorem reject_control_characters_eq_ok {value : Str} {u : Unit} :
    reject_control_characters code value field label = .ok u ↔ value.any is_control = false := by
  unfold reject_control_characters
  rw [bind_eq_ok]
  constructor
  · rintro ⟨⟨h⟩, -, -⟩
    exact h
  · exact fun h => ⟨⟨h⟩, ensure_ok h _, rfl⟩

theorem to_string_of_parse {value : Str} {digest : Sha256} (h : Sha256.parse value = some digest) :
    digest.to_string = value := by
  unfold Sha256.parse at h
  split at h
  · rename_i hvalue
    rw [← Option.some.inj h]
    exact hex_pair_bytes (by rw [hvalue.1]) hvalue.2
  · cases h

theorem parse_digest_eq_ok {value : Str} {message : String} {digest : Sha256} :
    parse_digest code value message = .ok digest ↔ value = digest.to_string := by
  unfold parse_digest
  cases hparse : Sha256.parse value with
  | none =>
    simp only [reduceCtorEq, false_iff]
    rintro rfl
    rw [Sha256.parse_to_string] at hparse
    cases hparse
  | some found =>
    have hvalue := to_string_of_parse hparse
    constructor
    · intro h
      cases h
      exact hvalue.symm
    · rintro rfl
      rw [Sha256.parse_to_string] at hparse
      rw [Option.some.inj hparse]

end Fields

/-- **A sorted list** is accepted with what its texts decode to. The names that have been seen
are behind the previous text, so the order excludes them. -/
theorem sorted_texts_eq_ok {α : Type} {code : DiagnosticCode} {not_text duplicate unsorted : String}
    {decode : Str → EvidenceResult α} {names : List Str} {previous : Option Str}
    {values : List StrictJson} {results : List α}
    (hnames : ∀ name ∈ names, ∃ p ∈ previous, byte_key name ≤ byte_key p) :
    sorted_texts code not_text decode duplicate unsorted names previous values = .ok results ↔
      ∃ texts, values = texts.map .String ∧
        List.Forall₂ (fun text result => decode text = .ok result) texts results ∧
        (∀ p ∈ previous, ∀ text ∈ texts, byte_key p < byte_key text) ∧
        texts.Pairwise fun a b => byte_key a < byte_key b := by
  induction values generalizing names previous results with
  | nil =>
    constructor
    · intro h
      cases h
      exact ⟨[], rfl, .nil, by simp, .nil⟩
    · rintro ⟨texts, htexts, hresults, -, -⟩
      rw [List.map_eq_nil_iff.mp htexts.symm] at hresults
      cases hresults
      rfl
  | cons value values ih =>
    cases value with
    | String text =>
      have hstep : ∀ name ∈ text :: names, ∃ p ∈ some text, byte_key name ≤ byte_key p ∨
          ∃ q ∈ previous, byte_key name ≤ byte_key q := by
        intro name hname
        refine ⟨text, rfl, ?_⟩
        rcases List.mem_cons.mp hname with rfl | hname
        · exact .inl (le_refl _)
        · exact .inr (hnames name hname)
      have hbehind : previous.any (fun value => decide (byte_key text ≤ byte_key value)) = false →
          ∀ name ∈ text :: names, ∃ p ∈ some text, byte_key name ≤ byte_key p := by
        intro hprevious name hname
        obtain ⟨p, hp, hle | ⟨q, hq, hle⟩⟩ := hstep name hname
        · exact ⟨p, hp, hle⟩
        · refine ⟨text, rfl, hle.trans ?_⟩
          rw [Option.mem_def.mp hq, Option.any_some, decide_eq_false_iff_not, not_le] at hprevious
          exact hprevious.le
      unfold sorted_texts
      simp only [bind_eq_ok]
      constructor
      · rintro ⟨decoded, hdecoded, -, -, ⟨hprevious⟩, -, rest, hrest, h⟩
        cases h
        obtain ⟨texts, rfl, hresults, hfirst, hsorted⟩ := (ih (hbehind hprevious)).mp hrest
        refine ⟨text :: texts, rfl, .cons hdecoded hresults, ?_,
          .cons (fun other hother => hfirst text rfl other hother) hsorted⟩
        intro p hp other hother
        rw [Option.mem_def.mp hp, Option.any_some, decide_eq_false_iff_not, not_le] at hprevious
        rcases List.mem_cons.mp hother with rfl | hother
        · exact hprevious
        · exact hprevious.trans (hfirst text rfl other hother)
      · rintro ⟨texts, htexts, hresults, hfirst, hsorted⟩
        cases texts with
        | nil => exact absurd htexts (by simp)
        | cons text' texts =>
          rw [List.map_cons, List.cons.injEq] at htexts
          obtain ⟨htext, rfl⟩ := htexts
          cases htext
          cases hresults with
          | cons hdecoded hresults =>
            have hfresh : text ∉ names := by
              intro hmem
              obtain ⟨p, hp, hle⟩ := hnames text hmem
              exact absurd hle (not_le.mpr (hfirst p hp text List.mem_cons_self))
            have hprevious :
                previous.any (fun value => decide (byte_key text ≤ byte_key value)) = false := by
              cases previous with
              | none => rfl
              | some p =>
                rw [Option.any_some, decide_eq_false_iff_not, not_le]
                exact hfirst p rfl text List.mem_cons_self
            refine ⟨_, hdecoded, ⟨hfresh⟩, ensure_ok hfresh _, ⟨hprevious⟩, ensure_ok hprevious _, _,
              (ih (hbehind hprevious)).mpr ⟨texts, rfl, hresults, ?_, hsorted.of_cons⟩, rfl⟩
            intro p hp other hother
            cases hp
            exact (List.pairwise_cons.mp hsorted).1 other hother
    | _ =>
      constructor
      · intro h
        cases h
      · rintro ⟨texts, htexts, -⟩
        cases texts with
        | nil => exact absurd htexts (by simp)
        | cons text texts => exact absurd htexts (by simp)

/-- Strict order, of a whole list. -/
theorem sorted_texts_whole {α : Type} {code : DiagnosticCode} {not_text duplicate unsorted : String}
    {decode : Str → EvidenceResult α} {values : List StrictJson} {results : List α} :
    sorted_texts code not_text decode duplicate unsorted [] none values = .ok results ↔
      ∃ texts, values = texts.map .String ∧
        List.Forall₂ (fun text result => decode text = .ok result) texts results ∧
        StrictlySorted byte_key texts := by
  rw [sorted_texts_eq_ok (by simp)]
  simp [StrictlySorted]

/-! ## Bindings -/

/-- The fields of a binding, as they stand in its document. -/
structure BindingFields (root : Entries) (binding : ProjectBindingV1) : Prop where
  known : Known root Binding.ROOT_FIELDS
  schema_version : get root "schemaVersion" = some (.Number ⟨['1']⟩)
  policy_version : get root "policyVersion" = some (.Number ⟨['1']⟩)
  project_id : get root "projectId" = some (.String binding.project_id.to_string)
  project_path : get root "projectPath" = some (.String binding.project_path)
  image_id : get root "imageId" = some (.String binding.image_id.to_string)
  manifest_sha256 : get root "manifestSha256" = some (.String binding.manifest_sha256.to_string)
  provider_id : get root "providerId" = some (.String binding.provider_id)
  toolchain : get root "toolchain" = some (.String binding.toolchain)
  bound_at : get root "boundAt" = some (.String binding.bound_at)
  last_verified_at : get root "lastVerifiedAt" = some (.String binding.last_verified_at)
  allowed_targets : get root "allowedTargets" =
    some (.Array (binding.allowed_targets.map fun target => .String target.as_str))

/-- A text that a person is shown: not empty, short and on one line. -/
structure ShownText (value : Str) : Prop where
  nonempty : value ≠ []
  short : byte_len value ≤ MAX_SHORT_STRING_BYTES
  plain : value.any is_control = false

/-- What the reader wants of a binding beyond its fields. -/
structure BindingRules (canonical_project_path : Str) (binding : ProjectBindingV1) : Prop where
  path : binding.project_path = canonical_project_path
  path_present : canonical_project_path ≠ []
  path_bounded : byte_len canonical_project_path ≤ MAX_PATH_BYTES
  project_id : binding.project_id = project_id canonical_project_path
  provider_id : ShownText binding.provider_id
  toolchain : ShownText binding.toolchain
  bound_at : valid_canonical_timestamp binding.bound_at = true
  last_verified_at : valid_canonical_timestamp binding.last_verified_at = true
  in_order : ¬byte_key binding.last_verified_at < byte_key binding.bound_at
  targets_present : binding.allowed_targets ≠ []
  targets_counted : binding.allowed_targets.length ≤ MAX_ALLOWED_TARGETS
  targets_sorted : StrictlySorted byte_key (binding.allowed_targets.map BuildTarget.as_str)

theorem slice_digit {value : Str} {start stop i : ℕ} (h : (slice value start stop).all is_digit = true)
    (hi : i < value.length) (hstart : start ≤ i) (hstop : i < stop) : value[i].toNat ≤ 127 := by
  have hmem : value[i] ∈ slice value start stop := by
    unfold slice
    refine List.mem_iff_getElem.mpr ⟨i - start, ?_, ?_⟩
    · rw [List.length_take, List.length_drop]
      omega
    · rw [List.getElem_take, List.getElem_drop]
      congr 1
      omega
  have hdigit := List.all_eq_true.mp h _ hmem
  unfold is_digit at hdigit
  rw [decide_eq_true_eq] at hdigit
  exact le_trans (show value[i].toNat ≤ '9'.toNat from hdigit.2) (by decide)

theorem mark_ascii {value : Str} {i : ℕ} {c : Char} (h : value[i]? = some c) (hc : c.toNat ≤ 127)
    (hi : i < value.length) : value[i].toNat ≤ 127 := by
  rw [List.getElem?_eq_getElem hi, Option.some.injEq] at h
  rwa [h]

theorem timestamp_length {value : Str} (h : valid_canonical_timestamp value = true) :
    byte_len value = 24 := by
  unfold valid_canonical_timestamp at h
  simp only [Bool.and_eq_true, decide_eq_true_eq] at h
  obtain ⟨⟨⟨hlength, hmarks⟩, hdigits⟩, -⟩ := h
  have hascii : ∀ c ∈ value, c.toNat ≤ 127 := by
    simp only [List.all_cons, List.all_nil, Bool.and_true, Bool.and_eq_true, decide_eq_true_eq] at hmarks
    simp only [List.all_cons ,
      List.all_nil ,
      Bool.and_true, Bool.and_eq_true] at hdigits
    obtain ⟨h4, h7, h10, h13, h16, h19, h23⟩ := hmarks
    obtain ⟨hyear, hmonth, hday, hhour, hminute, hsecond, hmilli⟩ := hdigits
    intro c hc
    obtain ⟨i, hi, rfl⟩ := List.mem_iff_getElem.mp hc
    -- every place is a digit or one of the seven marks
    by_cases hi4 : i < 4
    · exact slice_digit hyear hi (by omega) hi4
    by_cases hi4 : i = 4
    · subst hi4
      exact mark_ascii h4 (by decide) hi
    by_cases hi7 : i < 7
    · exact slice_digit hmonth hi (by omega) hi7
    by_cases hi7 : i = 7
    · subst hi7
      exact mark_ascii h7 (by decide) hi
    by_cases hi10 : i < 10
    · exact slice_digit hday hi (by omega) hi10
    by_cases hi10 : i = 10
    · subst hi10
      exact mark_ascii h10 (by decide) hi
    by_cases hi13 : i < 13
    · exact slice_digit hhour hi (by omega) hi13
    by_cases hi13 : i = 13
    · subst hi13
      exact mark_ascii h13 (by decide) hi
    by_cases hi16 : i < 16
    · exact slice_digit hminute hi (by omega) hi16
    by_cases hi16 : i = 16
    · subst hi16
      exact mark_ascii h16 (by decide) hi
    by_cases hi19 : i < 19
    · exact slice_digit hsecond hi (by omega) hi19
    by_cases hi19 : i = 19
    · subst hi19
      exact mark_ascii h19 (by decide) hi
    by_cases hi23 : i < 23
    · exact slice_digit hmilli hi (by omega) hi23
    · have hlast : i = 23 := by omega
      subst hlast
      exact mark_ascii h23 (by decide) hi
  rw [byte_len_ascii hascii, hlength]

theorem target_parse_eq_ok {value : Str} {target : BuildTarget} :
    BuildTarget.parse value = .ok target ↔ target.as_str = value := by
  unfold BuildTarget.parse
  rw [bind_eq_ok]
  constructor
  · rintro ⟨⟨hvalid⟩, -, h⟩
    cases h
    rfl
  · rintro rfl
    exact ⟨⟨target.valid⟩, ensure_ok target.valid _, rfl⟩

theorem decode_targets_eq_ok {root : Entries} {targets : List BuildTarget} :
    Binding.decode_targets root = .ok targets ↔
      get root "allowedTargets" = some (.Array (targets.map fun target => .String target.as_str)) ∧
        targets ≠ [] ∧ targets.length ≤ MAX_ALLOWED_TARGETS ∧
        StrictlySorted byte_key (targets.map BuildTarget.as_str) := by
  have hpairs : ∀ texts : List Str, List.Forall₂ (fun text target =>
      BuildTarget.parse text = .ok target) texts targets ↔ texts = targets.map BuildTarget.as_str := by
    intro texts
    simp only [target_parse_eq_ok]
    have heq : texts = targets.map BuildTarget.as_str ↔
        List.Forall₂ (fun a b => a = b) texts (targets.map BuildTarget.as_str) := by
      rw [List.forall₂_eq_eq_eq]
    rw [heq, List.forall₂_map_right_iff]
    constructor
    · exact fun h => h.imp fun _ _ heq => heq.symm
    · exact fun h => h.imp fun _ _ heq => heq.symm
  unfold Binding.decode_targets
  split
  · rename_i values hget
    rw [hget, bind_eq_ok]
    simp only [sorted_texts_whole, hpairs]
    constructor
    · rintro ⟨⟨hne, hcount⟩, -, texts, rfl, rfl, hsorted⟩
      rw [List.length_map, List.length_map] at hcount
      refine ⟨by rw [List.map_map]; rfl, ?_, hcount, hsorted⟩
      rintro rfl
      exact hne rfl
    · rintro ⟨hvalues, hne, hcount, hsorted⟩
      simp only [Option.some.injEq, StrictJson.Array.injEq] at hvalues
      have hpresent : values ≠ [] ∧ values.length ≤ MAX_ALLOWED_TARGETS := by
        rw [hvalues, List.length_map]
        exact ⟨by simpa using hne, hcount⟩
      exact ⟨⟨hpresent⟩, ensure_ok hpresent _, targets.map BuildTarget.as_str,
        by rw [hvalues, List.map_map]; rfl, rfl, hsorted⟩
  · rename_i value hother hget
    rw [hget]
    simp only [reduceCtorEq, Option.some.injEq, false_iff, not_and]
    exact fun h => absurd h (hother _)
  · rename_i hget
    simp [hget]

theorem decode_timestamps_eq_ok {root : Entries} {times : Str × Str} :
    Binding.decode_timestamps root = .ok times ↔
      get root "boundAt" = some (.String times.1) ∧ get root "lastVerifiedAt" = some (.String times.2) ∧
        valid_canonical_timestamp times.1 = true ∧ valid_canonical_timestamp times.2 = true ∧
        ¬byte_key times.2 < byte_key times.1 := by
  unfold Binding.decode_timestamps
  simp only [bind_eq_ok, required_string_eq_ok]
  constructor
  · rintro ⟨bound, ⟨hbound, -⟩, verified, ⟨hverified, -⟩, ⟨hvalid⟩, -, ⟨horder⟩, -, h⟩
    cases h
    rw [Bool.and_eq_true] at hvalid
    exact ⟨hbound, hverified, hvalid.1, hvalid.2, horder⟩
  · rintro ⟨hbound, hverified, hbound_valid, hverified_valid, horder⟩
    have hvalid : (valid_canonical_timestamp times.1 && valid_canonical_timestamp times.2) = true := by
      rw [hbound_valid, hverified_valid]
      rfl
    exact ⟨_, ⟨hbound, (timestamp_length hbound_valid).le⟩, _,
      ⟨hverified, (timestamp_length hverified_valid).le⟩, ⟨hvalid⟩, ensure_ok hvalid _, ⟨horder⟩,
      ensure_ok horder _, rfl⟩

theorem digest_len (digest : Sha256) : byte_len digest.to_string = 64 := by
  have hascii : ∀ c ∈ digest.to_string, c.toNat ≤ 127 := by
    intro c hc
    have hhex := List.all_eq_true.mp (hex_all_lower digest.bytes) c hc
    unfold is_lower_hex at hhex
    rw [decide_eq_true_eq] at hhex
    obtain ⟨-, hle⟩ | ⟨-, hle⟩ := hhex
    · exact le_trans (show c.toNat ≤ '9'.toNat from hle) (by decide)
    · exact le_trans (show c.toNat ≤ 'f'.toNat from hle) (by decide)
  rw [byte_len_ascii hascii, Sha256.to_string_length]

theorem digest_short (digest : Sha256) : byte_len digest.to_string ≤ MAX_SHORT_STRING_BYTES := by
  rw [digest_len]
  decide

/-- **A binding is read** exactly when its fields stand in the document and the rules hold. -/
theorem decode_project_binding_eq_ok {value : StrictJson} {canonical_project_path : Str}
    {binding : ProjectBindingV1} :
    decode_project_binding value canonical_project_path = .ok binding ↔
      ∃ root, value = .Object root ∧ BindingFields root binding ∧
        BindingRules canonical_project_path binding := by
  unfold decode_project_binding
  simp only [bind_eq_ok, object_eq_ok, reject_unknown_fields_eq_ok, required_one_eq_ok,
    required_string_eq_ok, required_nonempty_string_eq_ok, reject_control_characters_eq_ok,
    parse_digest_eq_ok, decode_timestamps_eq_ok, decode_targets_eq_ok]
  constructor
  · rintro ⟨⟨hpath, hlen⟩, -, root, rfl, -, hknown, -, hschema, -, hpolicy, encoded, ⟨hid, -⟩, id, rfl,
      ⟨hidentity⟩, -, path, ⟨hproject, -⟩, ⟨rfl⟩, -, image, ⟨himage, -⟩, image_digest, rfl, manifest,
      ⟨hmanifest, -⟩, manifest_digest, rfl, provider, ⟨hprovider, hprovider_len, hprovider_ne⟩,
      toolchain, ⟨htoolchain, htoolchain_len, htoolchain_ne⟩, -, hprovider_plain, -, htoolchain_plain,
      times, ⟨hbound, hverified, hbound_valid, hverified_valid, horder⟩, targets,
      ⟨htargets, htargets_ne, htargets_len, hsorted⟩, h⟩
    cases h
    exact ⟨root, rfl, ⟨hknown, hschema, hpolicy, hid, hproject, himage, hmanifest, hprovider,
      htoolchain, hbound, hverified, htargets⟩, ⟨rfl, hpath, hlen, hidentity,
      ⟨hprovider_ne, hprovider_len, hprovider_plain⟩,
      ⟨htoolchain_ne, htoolchain_len, htoolchain_plain⟩, hbound_valid, hverified_valid, horder,
      htargets_ne, htargets_len, hsorted⟩⟩
  · rintro ⟨root, rfl, hfields, hrules⟩
    have hpath := And.intro hrules.path_present hrules.path_bounded
    have hbounded : byte_len binding.project_path ≤ MAX_PATH_BYTES := by
      rw [hrules.path]
      exact hrules.path_bounded
    exact ⟨⟨hpath⟩, ensure_ok hpath _, root, rfl, (), hfields.known, (), hfields.schema_version, (),
      hfields.policy_version, _, ⟨hfields.project_id, digest_short _⟩, _, rfl, ⟨hrules.project_id⟩,
      ensure_ok hrules.project_id _, _, ⟨hfields.project_path, hbounded⟩, ⟨hrules.path⟩,
      ensure_ok hrules.path _, _, ⟨hfields.image_id, digest_short _⟩, _, rfl, _,
      ⟨hfields.manifest_sha256, digest_short _⟩, _, rfl, _,
      ⟨hfields.provider_id, hrules.provider_id.short, hrules.provider_id.nonempty⟩, _,
      ⟨hfields.toolchain, hrules.toolchain.short, hrules.toolchain.nonempty⟩, (),
      hrules.provider_id.plain, (), hrules.toolchain.plain,
      (binding.bound_at, binding.last_verified_at), ⟨hfields.bound_at, hfields.last_verified_at,
        hrules.bound_at, hrules.last_verified_at, hrules.in_order⟩, _,
      ⟨hfields.allowed_targets, hrules.targets_present, hrules.targets_counted,
        hrules.targets_sorted⟩, rfl⟩

/-! ## Attestations -/

/-- The fields of an image identity. -/
structure IdentityFields (root : Entries) (identity : ImageIdentityV1) : Prop where
  known : Known root Attestation.IDENTITY_FIELDS
  schema_version : get root "schemaVersion" = some (.Number ⟨['1']⟩)
  lean_toolchain : get root "leanToolchain" = some (.String identity.lean_toolchain)
  lean_compiler_githash : get root "leanCompilerGithash" =
    some (.String identity.lean_compiler_githash)
  mathlib_revision : get root "mathlibRevision" = some (.String identity.mathlib_revision)
  canonical_manifest_hash : get root "canonicalManifestHash" =
    some (.String identity.canonical_manifest_hash.to_string)
  package_source_tree_hash : get root "packageSourceTreeHash" =
    some (.String identity.package_source_tree_hash.to_string)
  build_relevant_config_hash : get root "buildRelevantConfigHash" =
    some (.String identity.build_relevant_config_hash.to_string)
  target_platform : get root "targetPlatform" = some (.String identity.target_platform)

/-- A Git revision. -/
def IsRevision (value : Str) : Prop := byte_len value = 40 ∧ value.all is_lower_hex = true

/-- What the reader wants of an identity beyond its fields. -/
structure IdentityRules (identity : ImageIdentityV1) : Prop where
  lean_toolchain : ShownText identity.lean_toolchain
  lean_compiler_githash : IsRevision identity.lean_compiler_githash
  mathlib_revision : IsRevision identity.mathlib_revision
  target_platform : ShownText identity.target_platform

theorem required_sha256_eq_ok {root : Entries} {field label : String} {digest : Sha256} :
    Attestation.required_sha256 root field label = .ok digest ↔
      get root field = some (.String digest.to_string) := by
  unfold Attestation.required_sha256
  simp only [bind_eq_ok, required_string_eq_ok, parse_digest_eq_ok]
  constructor
  · rintro ⟨_, ⟨hget, -⟩, rfl⟩
    exact hget
  · exact fun hget => ⟨_, ⟨hget, (digest_len digest).le⟩, rfl⟩

theorem required_git_revision_eq_ok {root : Entries} {field : String} {revision : Str} :
    Attestation.required_git_revision root field = .ok revision ↔
      get root field = some (.String revision) ∧ IsRevision revision := by
  unfold Attestation.required_git_revision IsRevision
  simp only [bind_eq_ok, required_string_eq_ok]
  constructor
  · rintro ⟨_, ⟨hget, -⟩, ⟨hrevision⟩, -, h⟩
    cases h
    rw [Bool.and_eq_true, decide_eq_true_eq] at hrevision
    exact ⟨hget, hrevision⟩
  · rintro ⟨hget, hrevision⟩
    have hcheck : (decide (byte_len revision = 40) && revision.all is_lower_hex) = true := by
      rw [Bool.and_eq_true, decide_eq_true_eq]
      exact hrevision
    exact ⟨_, ⟨hget, hrevision.1.le⟩, ⟨hcheck⟩, ensure_ok hcheck _, rfl⟩

theorem decode_identity_eq_ok {root : Entries} {identity : ImageIdentityV1} :
    Attestation.decode_identity root = .ok identity ↔
      IdentityFields root identity ∧ IdentityRules identity := by
  unfold Attestation.decode_identity
  simp only [bind_eq_ok, reject_unknown_fields_eq_ok, required_one_eq_ok,
    required_nonempty_string_eq_ok, reject_control_characters_eq_ok, required_sha256_eq_ok,
    required_git_revision_eq_ok]
  constructor
  · rintro ⟨-, hknown, -, hschema, toolchain, ⟨htoolchain, hlen, hne⟩, githash, ⟨hgithash, hrevision⟩,
      mathlib, ⟨hmathlib, hmathlib_revision⟩, manifest, hmanifest, tree, htree, config, hconfig,
      platform, ⟨hplatform, hplatform_len, hplatform_ne⟩, -, hplain, -, hplatform_plain, h⟩
    cases h
    exact ⟨⟨hknown, hschema, htoolchain, hgithash, hmathlib, hmanifest, htree, hconfig, hplatform⟩,
      ⟨hne, hlen, hplain⟩, hrevision, hmathlib_revision, hplatform_ne, hplatform_len, hplatform_plain⟩
  · rintro ⟨hfields, hrules⟩
    exact ⟨(), hfields.known, (), hfields.schema_version, _, ⟨hfields.lean_toolchain,
      hrules.lean_toolchain.short, hrules.lean_toolchain.nonempty⟩, _,
      ⟨hfields.lean_compiler_githash, hrules.lean_compiler_githash⟩, _,
      ⟨hfields.mathlib_revision, hrules.mathlib_revision⟩, _, hfields.canonical_manifest_hash, _,
      hfields.package_source_tree_hash, _, hfields.build_relevant_config_hash, _,
      ⟨hfields.target_platform, hrules.target_platform.short, hrules.target_platform.nonempty⟩, (),
      hrules.lean_toolchain.plain, (), hrules.target_platform.plain, rfl⟩

/-- The fields of a provider. -/
structure ProviderFields (root : Entries) (provider : AttestationProviderV1) : Prop where
  known : Known root Attestation.PROVIDER_FIELDS
  registry_sha256 : get root "registrySha256" = some (.String provider.registry_sha256.to_string)
  overrides_sha256 : get root "overridesSha256" = some (.String provider.overrides_sha256.to_string)

theorem decode_provider_eq_ok {root : Entries} {provider : AttestationProviderV1} :
    Attestation.decode_provider root = .ok provider ↔ ProviderFields root provider := by
  unfold Attestation.decode_provider
  simp only [bind_eq_ok, reject_unknown_fields_eq_ok, required_sha256_eq_ok]
  constructor
  · rintro ⟨-, hknown, registry, hregistry, overrides, hoverrides, h⟩
    cases h
    exact ⟨hknown, hregistry, hoverrides⟩
  · exact fun h => ⟨(), h.known, _, h.registry_sha256, _, h.overrides_sha256, rfl⟩

/-- The missing roots of an artifact policy. -/
structure PolicyFields (root : Entries) (missing_roots : List Str) : Prop where
  known : Known root Attestation.ARTIFACT_POLICY_FIELDS
  missing_roots : get root "missingRoots" = some (.Array (missing_roots.map .String))

/-- What the reader wants of the missing roots. -/
structure PolicyRules (missing_roots : List Str) : Prop where
  counted : missing_roots.length ≤ MAX_MISSING_ARTIFACT_ROOTS
  short : ∀ root ∈ missing_roots, ShownText root
  sorted : StrictlySorted byte_key missing_roots

theorem decode_root_eq_ok {root result : Str} :
    Attestation.decode_root root = .ok result ↔ result = root ∧ ShownText root := by
  unfold Attestation.decode_root
  simp only [bind_eq_ok, reject_control_characters_eq_ok]
  constructor
  · rintro ⟨⟨hne, hlen⟩, -, -, hplain, h⟩
    cases h
    exact ⟨rfl, hne, hlen, hplain⟩
  · rintro ⟨rfl, hshort⟩
    have hcheck := And.intro hshort.nonempty hshort.short
    exact ⟨⟨hcheck⟩, ensure_ok hcheck _, (), hshort.plain, rfl⟩

theorem decode_artifact_policy_eq_ok {root : Entries} {missing_roots : List Str} :
    Attestation.decode_artifact_policy root = .ok missing_roots ↔
      PolicyFields root missing_roots ∧ PolicyRules missing_roots := by
  have hpairs : ∀ texts : List Str, List.Forall₂ (fun text result =>
      Attestation.decode_root text = .ok result) texts missing_roots ↔
        texts = missing_roots ∧ ∀ root ∈ missing_roots, ShownText root := by
    intro texts
    simp only [decode_root_eq_ok]
    induction texts generalizing missing_roots with
    | nil => cases missing_roots <;> simp
    | cons text texts ih =>
      cases missing_roots with
      | nil => simp
      | cons root missing_roots =>
        rw [List.forall₂_cons, ih, List.forall_mem_cons, List.cons.injEq]
        constructor
        · rintro ⟨⟨rfl, hshort⟩, rfl, hall⟩
          exact ⟨⟨rfl, rfl⟩, hshort, hall⟩
        · rintro ⟨⟨rfl, rfl⟩, hshort, hall⟩
          exact ⟨⟨rfl, hshort⟩, rfl, hall⟩
  unfold Attestation.decode_artifact_policy
  rw [bind_eq_ok]
  simp only [reject_unknown_fields_eq_ok]
  split
  · rename_i values hget
    simp only [bind_eq_ok, sorted_texts_whole, hpairs]
    constructor
    · rintro ⟨-, hknown, ⟨hcount⟩, -, texts, rfl, ⟨rfl, hshort⟩, hsorted⟩
      rw [List.length_map] at hcount
      exact ⟨⟨hknown, hget⟩, hcount, hshort, hsorted⟩
    · rintro ⟨hfields, hrules⟩
      have hvalues := hget.symm.trans hfields.missing_roots
      simp only [Option.some.injEq, StrictJson.Array.injEq] at hvalues
      have hcount : values.length ≤ MAX_MISSING_ARTIFACT_ROOTS := by
        rw [hvalues, List.length_map]
        exact hrules.counted
      exact ⟨(), hfields.known, ⟨hcount⟩, ensure_ok hcount _, missing_roots, hvalues,
        ⟨rfl, hrules.short⟩, hrules.sorted⟩
  · rename_i value hother hget
    simp only [reduceCtorEq, and_false, exists_false, false_iff, not_and]
    intro hfields
    have hvalue := hget.symm.trans hfields.missing_roots
    exact absurd (Option.some.inj hvalue) (hother _)
  · rename_i hget
    simp only [reduceCtorEq, and_false, exists_false, false_iff, not_and]
    intro hfields
    have hvalue := hget.symm.trans hfields.missing_roots
    cases hvalue

/-- A count, by its digits. -/
structure CountField (root : Entries) (field : String) (count : ℕ) (lexical : Str) : Prop where
  number : get root field = some (.Number ⟨lexical⟩)
  present : lexical ≠ []
  digits : lexical.all is_digit = true
  value : decimal_value lexical = count
  safe : count ≤ MAX_SAFE_JSON_INTEGER

theorem required_safe_integer_eq_ok {root : Entries} {field label : String} {count : ℕ} :
    Attestation.required_safe_integer root field label = .ok count ↔
      ∃ lexical, CountField root field count lexical := by
  unfold Attestation.required_safe_integer
  split
  · rename_i number hget
    simp only [bind_eq_ok]
    constructor
    · rintro ⟨⟨hpresent, hdigits⟩, -, -, -, ⟨hsafe⟩, -, h⟩
      cases h
      exact ⟨number.lexical, hget, hpresent, hdigits, rfl, hsafe⟩
    · rintro ⟨lexical, hcount⟩
      have hnumber := hget.symm.trans hcount.number
      simp only [Option.some.injEq, StrictJson.Number.injEq] at hnumber
      subst hnumber
      have hdigits := And.intro hcount.present hcount.digits
      have hsafe : decimal_value lexical ≤ MAX_SAFE_JSON_INTEGER := by
        rw [hcount.value]
        exact hcount.safe
      have hlimit : decimal_value lexical < 2 ^ 64 := lt_of_le_of_lt hsafe (by decide)
      exact ⟨⟨hdigits⟩, ensure_ok hdigits _, ⟨hlimit⟩, ensure_ok hlimit _, ⟨hsafe⟩,
        ensure_ok hsafe _, congrArg _ hcount.value⟩
  · rename_i hother
    simp only [reduceCtorEq, false_iff, not_exists]
    intro lexical hcount
    exact hother _ hcount.number

/-- The fields of an attestation, with the objects inside it. -/
structure AttestationFields (root identity provider policy : Entries)
    (attestation : ImageAttestationV1) : Prop where
  known : Known root Attestation.ROOT_FIELDS
  schema_version : get root "schemaVersion" = some (.Number ⟨['1']⟩)
  status : get root "status" = some (.String "sealed".toList)
  image_id : get root "imageId" = some (.String attestation.image_id.to_string)
  provider_id : get root "providerId" = some (.String attestation.provider_id)
  identity_object : get root "identity" = some (.Object identity)
  identity : IdentityFields identity attestation.identity
  provider_object : get root "provider" = some (.Object provider)
  provider : ProviderFields provider attestation.provider
  dependency_tree_hash : get root "dependencyTreeHash" =
    some (.String attestation.dependency_tree_hash.to_string)
  artifact_tree_hash : get root "artifactTreeHash" =
    some (.String attestation.artifact_tree_hash.to_string)
  artifact_count : ∃ lexical, CountField root "artifactCount" attestation.artifact_count lexical
  policy_object : get root "artifactPolicy" = some (.Object policy)
  policy : PolicyFields policy attestation.missing_roots
  sealed_at : get root "sealedAt" = some (.String attestation.sealed_at)

/-- What the reader wants of an attestation beyond its fields. -/
structure AttestationRules (requested_image_id : Sha256) (attestation : ImageAttestationV1) :
    Prop where
  requested : attestation.image_id = requested_image_id
  derived : image_id attestation.identity = requested_image_id
  registry : attestation.provider.registry_sha256 = attestation.identity.canonical_manifest_hash
  provider_id : ShownText attestation.provider_id
  identity : IdentityRules attestation.identity
  policy : PolicyRules attestation.missing_roots
  sealed_at : valid_canonical_timestamp attestation.sealed_at = true

/-- **An attestation is read** exactly when its fields stand in the document and the rules hold. -/
theorem decode_image_attestation_eq_ok {value : StrictJson} {requested_image_id : Sha256}
    {attestation : ImageAttestationV1} :
    decode_image_attestation value requested_image_id = .ok attestation ↔
      ∃ root identity provider policy, value = .Object root ∧
        AttestationFields root identity provider policy attestation ∧
        AttestationRules requested_image_id attestation := by
  unfold decode_image_attestation
  simp only [bind_eq_ok, object_eq_ok, required_object_eq_ok, reject_unknown_fields_eq_ok,
    required_one_eq_ok, required_string_eq_ok, required_nonempty_string_eq_ok,
    reject_control_characters_eq_ok, parse_digest_eq_ok, decode_identity_eq_ok,
    decode_provider_eq_ok, required_sha256_eq_ok, required_safe_integer_eq_ok,
    decode_artifact_policy_eq_ok]
  constructor
  · rintro ⟨root, rfl, -, hknown, -, hschema, status, ⟨hstatus, -⟩, ⟨rfl⟩, -, encoded, ⟨himage, -⟩,
      image, rfl, ⟨hrequested⟩, -, provider_id, ⟨hprovider_id, hlen, hne⟩, -, hplain, identity_root,
      hidentity_root, identity, ⟨hidentity, hidentity_rules⟩, ⟨hderived⟩, -, provider_root,
      hprovider_root, provider, hprovider, ⟨hregistry⟩, -, dependency, hdependency, artifact,
      hartifact, count, hcount, policy_root, hpolicy_root, roots, ⟨hpolicy, hpolicy_rules⟩,
      sealed_at, ⟨hsealed, -⟩, ⟨hsealed_valid⟩, -, h⟩
    cases h
    exact ⟨root, identity_root, provider_root, policy_root, rfl,
      ⟨hknown, hschema, hstatus, himage, hprovider_id, hidentity_root, hidentity, hprovider_root,
        hprovider, hdependency, hartifact, hcount, hpolicy_root, hpolicy, hsealed⟩,
      ⟨hrequested, hderived, hregistry, ⟨hne, hlen, hplain⟩, hidentity_rules, hpolicy_rules,
        hsealed_valid⟩⟩
  · rintro ⟨root, identity, provider, policy, rfl, hfields, hrules⟩
    exact ⟨root, rfl, (), hfields.known, (), hfields.schema_version, _, ⟨hfields.status, by decide⟩,
      ⟨rfl⟩, ensure_ok rfl _, _, ⟨hfields.image_id, digest_short _⟩, _, rfl, ⟨hrules.requested⟩,
      ensure_ok hrules.requested _, _,
      ⟨hfields.provider_id, hrules.provider_id.short, hrules.provider_id.nonempty⟩, (),
      hrules.provider_id.plain, _, hfields.identity_object, _, ⟨hfields.identity, hrules.identity⟩,
      ⟨hrules.derived⟩, ensure_ok hrules.derived _, _, hfields.provider_object, _, hfields.provider,
      ⟨hrules.registry⟩, ensure_ok hrules.registry _, _, hfields.dependency_tree_hash, _,
      hfields.artifact_tree_hash, _, hfields.artifact_count, _, hfields.policy_object, _,
      ⟨hfields.policy, hrules.policy⟩, _,
      ⟨hfields.sealed_at, (timestamp_length hrules.sealed_at).le⟩, ⟨hrules.sealed_at⟩,
      ensure_ok hrules.sealed_at _, rfl⟩

end LeanBun.Evidence.Stored
