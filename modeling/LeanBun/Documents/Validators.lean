/-
What a binding and an attestation have to be.

The validators of the TypeScript side take any value that `JSON.parse` can give. They look
at the members that the interfaces name and at no others. A target is taken for a string
before that is known of it, which throws for some values.
-/
import LeanBun.Documents.Store
import LeanBun.Lib.Sorted

set_option autoImplicit false

namespace LeanBun.Documents

open LeanBun.Lib LeanBun.Core LeanBun.Execution

/-! ## Members -/

/-- A member that is a string and passes a test. -/
def has_string (name : String) (test : JsString → Bool) (value : Json) : Bool :=
  match value.member (js name) with
  | some (.string text) => test text
  | _ => false

/-- A member that is this number, by its text. -/
def has_number (name : String) (test : Str → Bool) (value : Json) : Bool :=
  match value.member (js name) with
  | some (.number number) => test number.text
  | _ => false

/-- `value.name === 1`. -/
def is_one (name : String) (value : Json) : Bool :=
  has_number name (fun text => decide (text = ['1'])) value

/-- `gitRevisionPattern`. -/
def git_revision_pattern (value : JsString) : Bool :=
  decide (value.length = 40) && value.all is_lower_hex_unit

/-- The text of a safe integer that is not negative. -/
def is_count (text : Str) : Bool :=
  is_canonical_decimal text && decide (decimal_value text ≤ 9007199254740991)

/-- `isRecord`. -/
def is_record : Json → Bool
  | .object _ => true
  | _ => false

/-! ## Lists of strings -/

/-- `validBuildTarget`. -/
def valid_build_target (target : JsString) : Bool :=
  decide (0 < target.length) && decide (target.length ≤ 256) &&
    !decide ((js "-") <+: target) && !decide ((js "..") <:+: target) &&
      target.all fun unit => decide (0x20 ≤ unit.toNat ∧ unit.toNat ≠ 0x7f)

/-- `Buffer.from`, which writes unpaired surrogates as U+FFFD. -/
def buffer_from (value : JsString) : List UInt8 :=
  as_bytes ((code_points value).map fun point => match point with
    | .inl c => c
    | .inr _ => '\uFFFD')

/-- What `Buffer.compare` orders strings by. -/
def buffer_key (value : JsString) : List ℕ := (buffer_from value).map UInt8.toNat

/-- A list of strings in the order of their bytes, each of them once. -/
def is_canonical_list (values : List JsString) : Bool :=
  decide (values = sort_by_key buffer_key values.eraseDups)

/-- `targets.every(validBuildTarget)`, which takes every element for a string; the strings if
all of them are valid. -/
def every_target (runtime : Runtime) : List Json → Except JsString (Option (List JsString))
  | [] => .ok (some [])
  | .string target :: values =>
    if valid_build_target target then
      (every_target runtime values).map (Option.map (target :: ·))
    else .ok none
  | value :: _ =>
    match runtime.not_a_string value with
    | some message => .error message
    | none => .ok none

/-- The elements of an array of strings that are not empty. -/
def every_root : List Json → Option (List JsString)
  | [] => some []
  | .string root :: values => if root.isEmpty then none else (every_root values).map (root :: ·)
  | _ :: _ => none

/-! ## Documents -/

/-- `validTimestamp`, of a member. -/
def has_timestamp (runtime : Runtime) (name : String) (value : Json) : Bool :=
  has_string name (fun text => (runtime.date_parse text).isSome) value

/-- What `validBinding` wants of the members besides the targets. -/
def valid_binding_members (runtime : Runtime) (value : Json) : Bool :=
  is_one "schemaVersion" value && is_one "policyVersion" value &&
  has_string "projectId" sha_pattern value && has_string "projectPath" (fun _ => true) value &&
  has_string "imageId" sha_pattern value && has_string "providerId" (fun _ => true) value &&
  has_timestamp runtime "boundAt" value && has_string "manifestSha256" sha_pattern value &&
  has_string "toolchain" (fun _ => true) value && has_timestamp runtime "lastVerifiedAt" value

/-- `validBinding`. -/
def valid_binding (runtime : Runtime) (value : Json) : Except JsString Bool :=
  match value.member (js "allowedTargets") with
  | some (.array values) => (every_target runtime values).map fun targets =>
    match targets with
    | some targets =>
      !targets.isEmpty && is_canonical_list targets && valid_binding_members runtime value
    | none => false
  | _ => .ok false

/-- `validIdentity`. -/
def valid_image_identity (value : Json) : Bool :=
  is_one "schemaVersion" value && has_string "leanToolchain" (fun text => !text.isEmpty) value &&
  has_string "leanCompilerGithash" git_revision_pattern value &&
  has_string "mathlibRevision" git_revision_pattern value &&
  has_string "canonicalManifestHash" sha_pattern value &&
  has_string "packageSourceTreeHash" sha_pattern value &&
  has_string "buildRelevantConfigHash" sha_pattern value &&
  has_string "targetPlatform" (fun text => !text.isEmpty) value

/-- A test of a member that is a record. -/
def has_record (name : String) (test : Json → Bool) (value : Json) : Bool :=
  match value.member (js name) with
  | some member => is_record member && test member
  | none => false

/-- The missing roots of an artifact policy. -/
def valid_artifact_policy (policy : Json) : Bool :=
  match policy.member (js "missingRoots") with
  | some (.array values) => (every_root values).any is_canonical_list
  | _ => false

/-- `validAttestation`. -/
def valid_attestation (runtime : Runtime) (value : Json) : Bool :=
  has_record "artifactPolicy" valid_artifact_policy value &&
  has_record "provider" (fun provider => has_string "registrySha256" sha_pattern provider &&
    has_string "overridesSha256" sha_pattern provider) value &&
  has_record "identity" valid_image_identity value &&
  is_one "schemaVersion" value && has_string "imageId" sha_pattern value &&
  has_string "providerId" (fun _ => true) value &&
  has_string "status" (fun text => decide (text = js "sealed")) value &&
  has_string "dependencyTreeHash" sha_pattern value &&
  has_string "artifactTreeHash" sha_pattern value &&
  has_number "artifactCount" is_count value && has_timestamp runtime "sealedAt" value

/-! ## The members of valid documents -/

theorem member_of_has_string {name : String} {test : JsString → Bool} {value : Json}
    (h : has_string name test value = true) :
    ∃ entries, value = .object entries ∧ js name ∈ entries.map Prod.fst := by
  unfold has_string Json.member at h
  split at h
  · rename_i hfound
    split at hfound
    · rename_i entries
      refine ⟨entries, rfl, ?_⟩
      obtain ⟨entry, hentry, -⟩ := Option.map_eq_some_iff.mp hfound
      have hname := List.find?_some hentry
      rw [← of_decide_eq_true hname]
      exact List.mem_map_of_mem (List.mem_of_find?_eq_some hentry)
    · exact absurd hfound (by simp)
  · exact absurd h (by simp)

/-- A value with two string members is one object that has both. -/
theorem members_of_has_strings {name name' : String} {test test' : JsString → Bool} {value : Json}
    (h : has_string name test value = true) (h' : has_string name' test' value = true) :
    ∃ entries, value = .object entries ∧
      ∀ member ∈ [js name, js name'], member ∈ entries.map Prod.fst := by
  obtain ⟨entries, rfl, hname⟩ := member_of_has_string h
  obtain ⟨entries', heq, hname'⟩ := member_of_has_string h'
  rw [← Json.object.inj heq] at hname'
  refine ⟨entries, rfl, ?_⟩
  intro member hmember
  rw [List.mem_cons, List.mem_singleton] at hmember
  obtain rfl | rfl := hmember
  · exact hname
  · exact hname'

theorem valid_binding_timestamps {runtime : Runtime} {value : Json}
    (h : valid_binding runtime value = .ok true) :
    ∃ entries, value = .object entries ∧
      ∀ name ∈ [js "boundAt", js "lastVerifiedAt"], name ∈ entries.map Prod.fst := by
  have hmembers : valid_binding_members runtime value = true := by
    unfold valid_binding at h
    split at h
    · rename_i values hvalues
      cases htargets : every_target runtime values with
      | error message =>
        rw [htargets] at h
        exact absurd h (by simp [Except.map])
      | ok targets =>
        rw [htargets] at h
        cases targets with
        | none => exact absurd h (by simp [Except.map])
        | some targets =>
          have hok := Except.ok.inj h
          simp only [Bool.and_eq_true] at hok
          exact hok.2
    · exact absurd h (by simp)
  unfold valid_binding_members at hmembers
  simp only [Bool.and_eq_true] at hmembers
  exact members_of_has_strings hmembers.1.1.1.2 hmembers.2

theorem valid_attestation_timestamps {runtime : Runtime} {value : Json}
    (h : valid_attestation runtime value = true) :
    ∃ entries, value = .object entries ∧
      ∀ name ∈ [js "sealedAt"], name ∈ entries.map Prod.fst := by
  unfold valid_attestation at h
  simp only [Bool.and_eq_true] at h
  obtain ⟨entries, rfl, hname⟩ := member_of_has_string h.2
  exact ⟨entries, rfl, by simpa using hname⟩

end LeanBun.Documents
