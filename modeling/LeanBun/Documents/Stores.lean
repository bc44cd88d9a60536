/-
The stores of project bindings and of image attestations.

They are the two stores of write-once documents. Whatever calls there are and wherever they
stop, the first document that is published stays; a later call returns it if its own one is
the same but for the timestamps, and a reader sees all of it or nothing.
-/
import LeanBun.Documents.Bindings
import LeanBun.Documents.Validators

set_option autoImplicit false

namespace LeanBun.Documents

open LeanBun.Lib LeanBun.Core LeanBun.Execution

/-! ## Bindings -/

/-- The members of `ProjectBindingV1`. -/
def binding_fields : List String :=
  ["schemaVersion", "projectId", "projectPath", "imageId", "providerId", "boundAt",
    "manifestSha256", "toolchain", "policyVersion", "allowedTargets", "lastVerifiedAt"]

/-- The check of `storeProjectBinding`. -/
def binding_refusal (project : JsString) (document : Json) : Option JsString :=
  if has_string "projectPath" (fun path => decide (path = project)) document &&
      has_string "projectId" (fun id => decide (id = project_id project)) document then none
  else some (js "binding project path or project id is internally inconsistent")

/-- The store of the binding of a project. -/
def binding_store (runtime : Runtime) (project : JsString) : DocumentStore where
  directory := project ++ js "/.leanbun"
  target := project ++ js "/.leanbun/binding.json"
  lock := project ++ js "/.leanbun/binding.lock"
  noun := js "binding"
  lock_noun := js "project binding"
  conflict := js "project already has a different binding"
  fields := binding_fields.map js
  timestamps := ["boundAt", "lastVerifiedAt"].map js
  timestamps_fields :=
    List.map_subset js (show ["boundAt", "lastVerifiedAt"] ⊆ binding_fields by decide)
  belongs _ := true
  refusal := binding_refusal project
  valid := valid_binding runtime
  valid_timestamps _ := valid_binding_timestamps

/-! ## Attestations -/

/-- The members of `ImageAttestationV1`. -/
def attestation_fields : List String :=
  ["schemaVersion", "imageId", "providerId", "status", "identity", "provider",
    "dependencyTreeHash", "artifactTreeHash", "artifactCount", "artifactPolicy", "sealedAt"]

/-- The members of an identity, in the order in which they are hashed. -/
def identity_members : List String :=
  ["schemaVersion", "leanToolchain", "leanCompilerGithash", "mathlibRevision",
    "canonicalManifestHash", "packageSourceTreeHash", "buildRelevantConfigHash", "targetPlatform"]

/-- A member with its name, unless it is `undefined`. -/
def member_entry (value : Json) (name : String) : Option (JsString × Json) :=
  (value.member (js name)).map fun member => (js name, member)

/-- `imageId`. -/
def image_id (identity : Json) : JsString :=
  hash_text (compact (.object (identity_members.filterMap (member_entry identity))))

/-- The text of a member that is a string. -/
def string_member (name : String) (value : Json) : Option JsString :=
  match value.member (js name) with
  | some (.string text) => some text
  | _ => none

/-- The second check of `storeImageAttestation`, of an argument with its types. -/
def is_consistent (document : Json) : Bool :=
  match document.member (js "identity"), document.member (js "provider") with
  | some identity, some provider =>
    decide (string_member "imageId" document = some (image_id identity)) &&
      decide (string_member "registrySha256" provider =
        string_member "canonicalManifestHash" identity)
  | _, _ => false

/-- The checks of `storeImageAttestation`. -/
def attestation_refusal (document : Json) : Option JsString :=
  if !has_string "imageId" sha_pattern document then some (js "image id is not SHA-256")
  else if !is_consistent document then
    some (js "attestation identity or canonical registry hash is internally inconsistent")
  else none

/-- The store of the attestation of an image. -/
def attestation_store (runtime : Runtime) (stateRoot imageId : JsString) : DocumentStore where
  directory := stateRoot ++ js "/attestations"
  target := stateRoot ++ (js "/attestations/" ++ (imageId ++ js ".json"))
  lock := stateRoot ++ (js "/attestations/" ++ (imageId ++ js ".lock"))
  noun := js "attestation"
  lock_noun := js "attestation seal"
  conflict := js "sealed image already exists with different evidence"
  fields := attestation_fields.map js
  timestamps := ["sealedAt"].map js
  timestamps_fields :=
    List.map_subset js (show ["sealedAt"] ⊆ attestation_fields by decide)
  belongs document := has_string "imageId" (fun id => decide (id = imageId)) document
  refusal := attestation_refusal
  valid document := .ok (valid_attestation runtime document)
  valid_timestamps _ h := valid_attestation_timestamps (Except.ok.inj h)

/-! ## Runs of both -/

/-- Whatever calls a store gets, it writes once: at every moment of a run and at every later
one. -/
def WritesOnce (store : DocumentStore) (runtime : Runtime) : Prop :=
  ∀ (ι π : Type) [DecidableEq ι] [DecidableEq π] (calls : ι → Call store) (home : ι → π)
    (s : StoreFiles ι) (pool pool' : Pool ι (StoreFiles ι) Unit StoreFailure CallResult),
    Fresh s → (call_system store runtime calls home).Run System.AnyStep s pool →
      Relation.ReflTransGen ((call_system store runtime calls home).Move System.AnyStep)
        pool pool' → WriteOnce store runtime calls pool pool'

/-- **Published documents stay**, of projects and of images. -/
theorem documents_write_once (runtime : Runtime) :
    (∀ project, WritesOnce (binding_store runtime project) runtime) ∧
      ∀ stateRoot imageId, WritesOnce (attestation_store runtime stateRoot imageId) runtime := by
  refine ⟨fun project => ?_, fun stateRoot imageId => ?_⟩
  · intro ι π _ _ calls home s pool pool' hs hrun hmore
    exact run_writes_once hs hrun hmore
  · intro ι π _ _ calls home s pool pool' hs hrun hmore
    exact run_writes_once hs hrun hmore

end LeanBun.Documents
