/-
The store of build images.

A call that has an image to publish takes the lock of its key, fills a staging directory
with the artifact and a record, and renames it to the object of the key. A recovery looks at
what a stopped call has left and finishes it or gives it up. Both look at the files one by
one, and other calls can come in between.

The files of one key are an `ImageEntry`. A directory has a serial number, by which a file
that was opened in it is still known after the directory has been renamed.
-/
import LeanBun.Core.Evaluate
import LeanBun.Generation.Model
import LeanBun.Lib.Interference

set_option autoImplicit false

namespace LeanBun.Build.Images

open LeanBun.Lib LeanBun.Core
open LeanBun.Generation (PathBuf path_components)

/-! ## Errors and images -/

/-- `BuildErrorKind`, as far as the store reports it. -/
inductive BuildErrorKind where
  | InvalidField
  | BoundaryViolation
  | ArtifactDrift
  | RecordDrift
  | LockBusy
  | Io
deriving DecidableEq

structure BuildError where
  kind : BuildErrorKind
  message : String
deriving DecidableEq

def io_error : BuildError := ⟨.Io, "M36 I/O failed"⟩

/-- `ReuseOutcomeV1`. -/
inductive ReuseOutcomeV1 where
  | Published
  | Reused
  | Aborted
deriving DecidableEq

/-- `BuildImageV1`, as far as the store reads it. -/
structure BuildImageV1 where
  key : Sha256
  dependency_artifact_sha256 : Sha256

/-- `record_bytes`. -/
def record_bytes (image : BuildImageV1) : Str :=
  "leanbun-build-image-v1\t1\nkey\t".toList ++ image.key.to_string ++ "\nartifact\t".toList ++
    image.dependency_artifact_sha256.to_string ++ ['\n']

/-! ## The entry of a key -/

/-- A directory with `artifact.bin` and `image.meta`, if they are there. -/
structure ImageDirectory where
  serial : ℕ
  artifact : Option (List UInt8)
  metadata : Option (List UInt8)
deriving DecidableEq

/-- The lock file, the staging directory and the object of a key. -/
structure ImageEntry where
  lock : Bool
  staging : Option ImageDirectory
  object : Option ImageDirectory
  next_serial : ℕ
deriving DecidableEq

/-- The steps of the store on the file system. -/
inductive ImageStep where
  | Look
  | CreateLock
  | WriteLock
  | CreateStaging
  | CopyArtifact
  | CreateMetadata
  | WriteMetadata
  | Rename
  | RemoveLock
deriving DecidableEq

abbrev ImageProg (α : Type) := Prog ImageEntry ImageStep BuildError α

/-- The staging directory or the object. -/
abbrev Place := ImageEntry → Option ImageDirectory

/-- `Path::exists` of a place. -/
def place_exists (place : Place) : ImageProg Bool := Prog.read .Look fun s => .ok (place s).isSome

/-- A file of a directory at a place. -/
def file_at (place : Place) (file : ImageDirectory → Option (List UInt8)) (s : ImageEntry) :
    Except BuildError (List UInt8) :=
  match (place s).bind file with
  | none => .error io_error
  | some bytes => .ok bytes

def MAX_ARTIFACT_BYTES : ℕ := 512 * 1024 * 1024

/-- `hash_file` of the artifact at a place: its size, then its bytes. -/
def hash_file (place : Place) : ImageProg Sha256 := do
  let found ← Prog.read .Look (file_at place ImageDirectory.artifact)
  let _ ← Prog.lift (ensure (found.length ≤ MAX_ARTIFACT_BYTES)
    ⟨.InvalidField, "bounded regular file required"⟩)
  let bytes ← Prog.read .Look (file_at place ImageDirectory.artifact)
  return digest bytes

/-- What `verify_record` asks of the bytes of a record. -/
def check_record (image : BuildImageV1) (bytes : List UInt8) : Except BuildError Unit :=
  match from_utf8 bytes with
  | none => .error io_error
  | some actual =>
    if actual ≠ record_bytes image then .error ⟨.RecordDrift, "build image metadata drifted"⟩
    else .ok ()

/-- `verify_record`. -/
def verify_record (place : Place) (image : BuildImageV1) : ImageProg Unit := do
  let bytes ← Prog.read .Look (file_at place ImageDirectory.metadata)
  Prog.lift (check_record image bytes)

/-- A step under its label. When it fails it has only looked. -/
def image_step {α : Type} (label : ImageStep)
    (f : ImageEntry → Except BuildError α × ImageEntry) : ImageProg α :=
  Prog.atomic (fun s => if (f s).1.isOk then label else .Look) f

/-- The lock is created only if it is not there. -/
def create_lock : ImageProg Unit :=
  image_step .CreateLock fun s =>
    if s.lock then (.error ⟨.LockBusy, "build image key is already locked"⟩, s)
    else (.ok (), { s with lock := true })

/-- The text of the lock, which no call reads. -/
def write_lock : ImageProg Unit := Prog.write .WriteLock id

/-- `fs::remove_file` of the lock. -/
def remove_lock : ImageProg Unit :=
  image_step .RemoveLock fun s =>
    if s.lock then (.ok (), { s with lock := false }) else (.error io_error, s)

/-- `fs::create_dir` of the staging directory. -/
def create_staging : ImageProg Unit :=
  image_step .CreateStaging fun s =>
    if s.staging.isSome then (.error io_error, s)
    else (.ok (), { s with
      staging := some ⟨s.next_serial, none, none⟩, next_serial := s.next_serial + 1 })

/-- `fs::copy` to the staging directory. -/
def copy_artifact (bytes : List UInt8) : ImageProg Unit :=
  image_step .CopyArtifact fun s =>
    match s.staging with
    | none => (.error io_error, s)
    | some d => (.ok (), { s with staging := some { d with artifact := some bytes } })

/-- `image.meta` is created only if it is not there; what comes back says in which directory. -/
def create_metadata : ImageProg ℕ :=
  image_step .CreateMetadata fun s =>
    match s.staging with
    | none => (.error io_error, s)
    | some d =>
      if d.metadata.isSome then (.error io_error, s)
      else (.ok d.serial, { s with staging := some { d with metadata := some [] } })

/-- The bytes of `image.meta` in the directory with the serial number. -/
def ImageDirectory.write (serial : ℕ) (bytes : List UInt8) (d : ImageDirectory) : ImageDirectory :=
  if d.serial = serial then { d with metadata := some bytes } else d

/-- `write_all` to `image.meta`, wherever its directory is now. -/
def write_metadata (serial : ℕ) (bytes : List UInt8) : ImageProg Unit :=
  Prog.write .WriteMetadata fun s => { s with
    staging := s.staging.map (ImageDirectory.write serial bytes)
    object := s.object.map (ImageDirectory.write serial bytes) }

/-- `fs::rename` of the staging directory to the object: it replaces only an empty one. -/
def rename_staging : ImageProg Unit :=
  image_step .Rename fun s =>
    match s.staging with
    | none => (.error io_error, s)
    | some d =>
      if s.object.any fun o => o.artifact.isSome || o.metadata.isSome then (.error io_error, s)
      else (.ok (), { s with staging := none, object := some d })

/-! ## The store -/

/-- `BuildImageStoreV1`: its root, and the regular files below it by their canonical paths,
apart from those of the entry. -/
structure BuildImageStoreV1 where
  root : PathBuf
  files : PathBuf → Option (List UInt8)

/-- The checks of the artifact in front of the first step. -/
def BuildImageStoreV1.check_artifact (store : BuildImageStoreV1) (image : BuildImageV1)
    (artifact : PathBuf) : Except BuildError (List UInt8) :=
  match store.files artifact with
  | none => .error io_error
  | some bytes => do
    let _ ← ensure ((path_components store.root).isPrefixOf (path_components artifact) = true)
      ⟨.BoundaryViolation, "build image artifact escapes image root"⟩
    let _ ← ensure (bytes.length ≤ MAX_ARTIFACT_BYTES)
      ⟨.InvalidField, "bounded regular file required"⟩
    let _ ← ensure (digest bytes = image.dependency_artifact_sha256)
      ⟨.ArtifactDrift, "candidate build image artifact drifted"⟩
    return bytes

/-- The steps of a new object. -/
def publish_new (image : BuildImageV1) (bytes : List UInt8) : ImageProg ReuseOutcomeV1 := do
  create_lock
  write_lock
  if ← place_exists ImageEntry.staging then
    Prog.lift (.error ⟨.RecordDrift, "unknown build image staging entry exists"⟩)
  else do
    create_staging
    copy_artifact bytes
    let serial ← create_metadata
    write_metadata serial (as_bytes (record_bytes image))
    rename_staging
    remove_lock
    verify_record ImageEntry.object image
    return .Published

/-- `publish_or_reuse`. -/
def BuildImageStoreV1.publish_or_reuse (store : BuildImageStoreV1) (image : BuildImageV1)
    (artifact : PathBuf) : ImageProg ReuseOutcomeV1 := do
  let bytes ← Prog.lift (store.check_artifact image artifact)
  if ← place_exists ImageEntry.object then do
    verify_record ImageEntry.object image
    return .Reused
  else publish_new image bytes

/-- `verify`. -/
def verify (image : BuildImageV1) : ImageProg Unit := do
  verify_record ImageEntry.object image
  let actual ← hash_file ImageEntry.object
  let _ ← Prog.lift (ensure (actual = image.dependency_artifact_sha256)
    ⟨.ArtifactDrift, "stored build image artifact drifted"⟩)
  return ()

/-- The record of a staging directory is checked, or written if there is none. -/
def complete_metadata (image : BuildImageV1) : ImageProg Unit := do
  if ← Prog.read .Look fun s => .ok (s.staging.bind ImageDirectory.metadata).isSome then
    verify_record ImageEntry.staging image
  else do
    let serial ← create_metadata
    write_metadata serial (as_bytes (record_bytes image))

/-- The steps of a recovery that finds a staging directory. -/
def recover_staging (image : BuildImageV1) : ImageProg ReuseOutcomeV1 := do
  let actual ← hash_file ImageEntry.staging
  let _ ← Prog.lift (ensure (actual = image.dependency_artifact_sha256)
    ⟨.ArtifactDrift, "staged build image artifact drifted"⟩)
  complete_metadata image
  rename_staging
  remove_lock
  verify image
  return .Published

/-- `recover`. -/
def recover (image : BuildImageV1) : ImageProg ReuseOutcomeV1 := do
  if ← place_exists ImageEntry.object then do
    verify image
    if ← Prog.read .Look fun s => .ok s.lock then remove_lock
    return .Reused
  else if ← Prog.read .Look fun s => .ok s.lock then
    if ← place_exists ImageEntry.staging then recover_staging image
    else do
      remove_lock
      return .Aborted
  else Prog.lift (.error ⟨.RecordDrift, "build image recovery lock is missing"⟩)

end LeanBun.Build.Images
