/-
Reading evidence while others change it.

`read_stable_text` looks at the path, opens the file, looks at the path again, reads the file
piece by piece, and looks at the file and the path once more. What it compares are metadata
identities, and of those the time of the last change is what counts: a file that is held open
is only written with a later one. So the file was the same from the first look at it to the
last, and its path led to it in between. The text that is returned is the contents of the path
at an instant of the call.
-/
import LeanBun.Lib.Timeline
import LeanBun.Evidence.ProjectInput

set_option autoImplicit false

namespace LeanBun.Evidence

open LeanBun.Lib LeanBun.Core LeanBun.Codec LeanBun.Plan

namespace Live

def MAX_STABLE_TEXT_BYTES : ℕ := 16 * 1024 * 1024

/-- The length of `chunk`. -/
def CHUNK_BYTES : ℕ := 64 * 1024

/-! ## The files -/

/-- A file of the system, by its numbers. -/
structure FileId where
  device : ℕ
  inode : ℕ
deriving DecidableEq

/-- Seconds and nanoseconds. -/
abbrev Timestamp := ℤ ×ₗ ℤ

/-- What a file is. For a file that is not regular, `bytes` stands for what its size counts. -/
structure Node where
  mode : ℕ
  modified : Timestamp
  changed : Timestamp
  bytes : List UInt8

namespace Node

/-- The file type in the mode. -/
def file_type (node : Node) : ℕ := node.mode &&& 0o170000

def is_symlink (node : Node) : Bool := decide (node.file_type = 0o120000)

def is_file (node : Node) : Bool := decide (node.file_type = 0o100000)

def is_dir (node : Node) : Bool := decide (node.file_type = 0o040000)

end Node

/-- The files at an instant. -/
structure Files where
  /-- `fs::canonicalize`. -/
  canonicalize : List UInt8 → Except Str CanonicalPath
  /-- What a path leads to, if the last link of it is not followed. -/
  entry : List UInt8 → Option FileId
  /-- What a path leads to. -/
  target : List UInt8 → Option FileId
  node : FileId → Node
  /-- The file that the reader has open. -/
  held : Option FileId
  /-- How many bytes the system has at hand for a read, behind the first. -/
  granted : ℕ
  /-- The error that every access has, if there is one. -/
  fault : Option Str

/-- An error of the system. -/
inductive IoError where
  | NotFound
  | Other (text : Str)

namespace IoError

/-- `to_string`. -/
def text : IoError → Str
  | NotFound => "No such file or directory (os error 2)".toList
  | Other text => text

/-- `map_io_error`. -/
def map_io_error : IoError → EvidenceError
  | NotFound => ⟨.EVIDENCE_MISSING, NotFound.text⟩
  | Other text => ⟨.EVIDENCE_READ_FAILED, text⟩

end IoError

namespace Files

/-- An access that finds something, or nothing. -/
def access {α : Type} (files : Files) (found : Option α) : Except IoError α :=
  match files.fault with
  | some error => .error (.Other error)
  | none =>
    match found with
    | some a => .ok a
    | none => .error .NotFound

/-- The contents of a path, if it leads to something. -/
def content (files : Files) (path : List UInt8) : Option (List UInt8) :=
  (files.entry path).map fun id => (files.node id).bytes

/-- The files at one instant, as a reader sees them that is not disturbed. -/
def view (files : Files) : FileSystem where
  present path :=
    match files.fault with
    | some error => .error error
    | none => .ok (files.entry path).isSome
  canonicalize path :=
    match files.fault with
    | some error => .error error
    | none => files.canonicalize path
  is_dir path :=
    (files.access (files.target path.bytes)).map (fun id => (files.node id).is_dir)
      |>.mapError IoError.text
  contents path := do
    let id ← (files.access (files.entry path)).mapError IoError.map_io_error
    let _ ← ensure ((files.node id).is_file = true)
      ⟨.EVIDENCE_NOT_REGULAR_FILE, "evidence is not a direct regular file: ".toList ++
        from_utf8_lossy path⟩
    return (files.node id).bytes

def set (files : Files) (id : FileId) (node : Node) : Files :=
  { files with node := Function.update files.node id node }

end Files

/-- What others do to the files. -/
inductive Change where
  /-- Directories and links are changed; a file is replaced by another one in this way. -/
  | Names (canonicalize : List UInt8 → Except Str CanonicalPath)
      (entry target : List UInt8 → Option FileId)
  /-- A file is written. -/
  | Write (id : FileId) (bytes : List UInt8) (modified changed : Timestamp)
  /-- The mode or the times of a file are set. -/
  | Touch (id : FileId) (mode : ℕ) (modified changed : Timestamp)
  /-- A file that is not held open is removed, and another one gets its numbers. -/
  | Anew (id : FileId) (node : Node)
  | Grant (granted : ℕ)
  | Fault (fault : Option Str)

/-- A write gives the file a later time of change, other changes of it no earlier one. A change
that does otherwise does not happen. -/
def Files.apply (change : Change) (files : Files) : Files :=
  match change with
  | .Names canonicalize entry target =>
    { files with canonicalize := canonicalize, entry := entry, target := target }
  | .Write id bytes modified changed =>
    if (files.node id).changed < changed then
      files.set id { files.node id with bytes := bytes, modified := modified, changed := changed }
    else files
  | .Touch id mode modified changed =>
    if (files.node id).changed ≤ changed then
      files.set id { files.node id with mode := mode, modified := modified, changed := changed }
    else files
  | .Anew id node => if files.held = some id then files else files.set id node
  | .Grant granted => { files with granted := granted }
  | .Fault fault => { files with fault := fault }

/-- Others who make these changes before each access. -/
def writers (changes : ℕ → List Change) : Surroundings Files Change := ⟨Files.apply, changes⟩

/-! ## The reader -/

/-- `Metadata`. -/
structure Metadata where
  id : FileId
  node : Node

/-- `MetadataIdentity`. -/
structure MetadataIdentity where
  device : ℕ
  inode : ℕ
  mode : ℕ
  size : ℕ
  modified : Timestamp
  changed : Timestamp
deriving DecidableEq

/-- `identity`. -/
def identity (metadata : Metadata) : MetadataIdentity :=
  ⟨metadata.id.device, metadata.id.inode, metadata.node.mode, metadata.node.bytes.length,
    metadata.node.modified, metadata.node.changed⟩

/-- A program of the reader. -/
abbrev Evidently (α : Type) := Reading Files EvidenceError α

section Reader

variable (changes : ℕ → List Change)

/-- `fs::symlink_metadata`. -/
def symlink_metadata (path : List UInt8) : Evidently Metadata :=
  look (writers changes) fun files =>
    ((files.access (files.entry path)).map fun id => ⟨id, files.node id⟩).mapError
      IoError.map_io_error

/-- `canonicalize_contained`. The path that is asked for is the candidate behind the root. -/
def canonicalize_contained (root : CanonicalDirectory) (candidate : Str) :
    Evidently CanonicalPath :=
  look (writers changes) fun files => Evidence.canonicalize_contained files.view root candidate

/-- `File::open`. -/
def open_file (source : CanonicalPath) : Evidently Unit :=
  act (writers changes) fun files =>
    ((files.access (files.target source.bytes)).map fun id => { files with held := some id }).mapError
      IoError.map_io_error

/-- `File::metadata`. -/
def file_metadata : Evidently Metadata :=
  look (writers changes) fun files =>
    ((files.access files.held).map fun id => ⟨id, files.node id⟩).mapError IoError.map_io_error

/-- The file is dropped. -/
def close_file : Evidently Unit :=
  act (writers changes) fun files => .ok { files with held := none }

/-- `Read::read` behind `position`, into a buffer of `room` bytes. -/
def read_chunk (position room : ℕ) : Evidently (List UInt8) :=
  look (writers changes) fun files =>
    ((files.access files.held).map fun id =>
      ((files.node id).bytes.drop position).take (min room (files.granted + 1))).mapError
        IoError.map_io_error

/-- The loop over the chunks. The limit is that of `take`; a round without bytes is the last, so
there are no more rounds than bytes. -/
def read_all (read_limit : ℕ) : ℕ → List UInt8 → Evidently (List UInt8)
  | 0, bytes => return bytes
  | rounds + 1, bytes => do
    let chunk ← read_chunk changes bytes.length (min CHUNK_BYTES (read_limit - bytes.length))
    if chunk = [] then return bytes
    else read_all read_limit rounds (bytes ++ chunk)

/-- `changed`. -/
def changed_error (path : List UInt8) (detail : String) : EvidenceError :=
  ⟨.EVIDENCE_CHANGED_DURING_READ, detail.toList ++ ": ".toList ++ from_utf8_lossy path⟩

/-- `verify_open_path`. -/
def verify_open_path (root : CanonicalDirectory) (candidate : Str) (source : CanonicalPath)
    (path_before opened : Metadata) : Evidently Unit := do
  let path_after ← symlink_metadata changes (join_path root candidate)
  let source_after ← canonicalize_contained changes root candidate
  let _ ← decideOn (ensure (path_after.node.is_symlink = false ∧
      identity path_before = identity opened ∧ identity path_after = identity opened ∧
      source_after = source)
    (changed_error (join_path root candidate) "path changed while opening"))
  return ()

/-- `verify_after_read`. -/
def verify_after_read (root : CanonicalDirectory) (candidate : Str) (source : CanonicalPath)
    (before after : Metadata) (bytes_read : ℕ) : Evidently Unit := do
  let path_after ← symlink_metadata changes (join_path root candidate)
  let source_after ← canonicalize_contained changes root candidate
  let _ ← decideOn (ensure (path_after.node.is_symlink = false ∧
      identity before = identity after ∧ identity path_after = identity after ∧
      source_after = source ∧ bytes_read = after.node.bytes.length)
    (changed_error (join_path root candidate) "path or file changed while reading"))
  return ()

/-- `String::from_utf8`. -/
def utf8_text (bytes : List UInt8) : EvidenceResult StableTextFile :=
  match from_utf8 bytes with
  | some text => .ok ⟨text⟩
  | none => .error ⟨.EVIDENCE_READ_FAILED, "evidence is not valid UTF-8".toList⟩

/-- The errors of a file that is too large, before and after it is read. -/
def too_large (maximum_bytes : ℕ) (first last : String) (path : List UInt8) : EvidenceError :=
  ⟨.EVIDENCE_TOO_LARGE, first.toList ++ decimal maximum_bytes ++ last.toList ++
    from_utf8_lossy path⟩

/-- **`read_stable_text`**, access by access. -/
def read_stable_text (root : CanonicalDirectory) (candidate : Str) (maximum_bytes : ℕ) :
    Evidently StableTextFile := do
  let _ ← decideOn (ensure (maximum_bytes ≤ MAX_STABLE_TEXT_BYTES)
    ⟨.EVIDENCE_TOO_LARGE, "requested evidence limit ".toList ++ decimal maximum_bytes ++
      " exceeds hard limit ".toList ++ decimal MAX_STABLE_TEXT_BYTES⟩)
  let path_before ← symlink_metadata changes (join_path root candidate)
  let _ ← decideOn (ensure (path_before.node.is_symlink = false ∧ path_before.node.is_file = true)
    ⟨.EVIDENCE_NOT_REGULAR_FILE, "evidence is not a direct regular file: ".toList ++
      from_utf8_lossy (join_path root candidate)⟩)
  let source ← canonicalize_contained changes root candidate
  open_file changes source
  let before ← file_metadata changes
  verify_open_path changes root candidate source path_before before
  let _ ← decideOn (ensure (before.node.bytes.length ≤ maximum_bytes)
    (too_large maximum_bytes "evidence exceeds " " bytes: " source.bytes))
  let bytes ← read_all changes (maximum_bytes + 1) (maximum_bytes + 1) []
  let _ ← decideOn (ensure (bytes.length ≤ maximum_bytes)
    (too_large maximum_bytes "evidence grew beyond " " bytes while reading: " source.bytes))
  let after ← file_metadata changes
  verify_after_read changes root candidate source before after bytes.length
  let file ← decideOn (utf8_text bytes)
  close_file changes
  return file

end Reader

theorem identity_eq {metadata other : Metadata} (h : identity metadata = identity other) :
    metadata.id = other.id ∧ metadata.node.mode = other.node.mode ∧
      metadata.node.bytes.length = other.node.bytes.length ∧
        metadata.node.changed = other.node.changed := by
  obtain ⟨⟨device, inode⟩, node⟩ := metadata
  obtain ⟨⟨device', inode'⟩, node'⟩ := other
  obtain ⟨rfl, rfl, hmode, hsize, -, hchanged⟩ := MetadataIdentity.mk.inj h
  exact ⟨rfl, hmode, hsize, hchanged⟩

theorem is_file_of_mode {node other : Node} (h : node.mode = other.mode)
    (hother : other.is_file = true) : node.is_file = true := by
  unfold Node.is_file Node.file_type at hother ⊢
  rw [h]
  exact hother

theorem utf8_text_eq_ok {bytes : List UInt8} {file : StableTextFile}
    (h : utf8_text bytes = .ok file) : bytes = as_bytes file.text := by
  unfold utf8_text at h
  split at h
  · rename_i text htext
    cases h
    exact from_utf8_eq_some.mp htext
  · cases h

/-! ## A file that is held open -/

/-- What others leave of a file that the reader holds: it is not another one, the time of its
last change does not go back, and as long as that stays its contents do. -/
def Kept (id : FileId) (files later : Files) : Prop :=
  files.held = some id → later.held = some id ∧
    (files.node id).changed ≤ (later.node id).changed ∧
      ((files.node id).changed = (later.node id).changed →
        (later.node id).bytes = (files.node id).bytes)

namespace Kept

theorem refl (id : FileId) (files : Files) : Kept id files files :=
  fun hheld => ⟨hheld, le_refl _, fun _ => rfl⟩

theorem trans {id : FileId} {files later latest : Files} (h : Kept id files later)
    (h' : Kept id later latest) : Kept id files latest := by
  intro hheld
  obtain ⟨hheld', hle, hbytes⟩ := h hheld
  obtain ⟨hheld'', hle', hbytes'⟩ := h' hheld'
  refine ⟨hheld'', hle.trans hle', fun heq => ?_⟩
  have hsame : (files.node id).changed = (later.node id).changed :=
    le_antisymm hle (hle'.trans heq.ge)
  rw [hbytes' (hsame.symm.trans heq), hbytes hsame]

/-- **One change** keeps a file that is held open. -/
theorem apply (id : FileId) (change : Change) (files : Files) :
    Kept id files (files.apply change) := by
  intro hheld
  unfold Files.apply
  split
  case h_1 => exact ⟨hheld, le_refl _, fun _ => rfl⟩
  case h_2 other bytes modified changed =>
    by_cases hlater : (files.node other).changed < changed
    · rw [if_pos hlater]
      refine ⟨hheld, ?_⟩
      by_cases hid : id = other
      · subst hid
        simp only [Files.set, Function.update_self]
        exact ⟨le_of_lt hlater, fun heq => absurd heq (ne_of_lt hlater)⟩
      · simp [Files.set, Function.update_of_ne hid]
    · rw [if_neg hlater]
      exact ⟨hheld, le_refl _, fun _ => rfl⟩
  case h_3 other mode modified changed =>
    by_cases hlater : (files.node other).changed ≤ changed
    · rw [if_pos hlater]
      refine ⟨hheld, ?_⟩
      by_cases hid : id = other
      · subst hid
        simp only [Files.set, Function.update_self]
        simpa using hlater
      · simp [Files.set, Function.update_of_ne hid]
    · rw [if_neg hlater]
      exact ⟨hheld, le_refl _, fun _ => rfl⟩
  case h_4 other node =>
    by_cases hother : files.held = some other
    · rw [if_pos hother]
      exact ⟨hheld, le_refl _, fun _ => rfl⟩
    · have hid : id ≠ other := by
        rintro rfl
        exact hother hheld
      rw [if_neg hother]
      simp [Files.set, Function.update_of_ne hid, hheld]
  case h_5 => exact ⟨hheld, le_refl _, fun _ => rfl⟩
  case h_6 => exact ⟨hheld, le_refl _, fun _ => rfl⟩

/-- The others together. -/
theorem upto (id : FileId) (changes : ℕ → List Change) (t : Timeline Files) :
    Kept id t.now ((writers changes).upto t).now :=
  Timeline.pass_now (Kept.refl id) Kept.trans (Kept.apply id) _ t

theorem same {id : FileId} {files middle later : Files} (h : Kept id files middle)
    (h' : Kept id middle later) (hheld : files.held = some id)
    (heq : (files.node id).changed = (later.node id).changed) :
    (files.node id).changed = (middle.node id).changed := by
  obtain ⟨hheld', hle, -⟩ := h hheld
  exact le_antisymm hle ((h' hheld').2.1.trans heq.ge)

/-- A file whose time of change is the same at the end as at the beginning has had the same
contents in between. -/
theorem between {id : FileId} {files middle later : Files} (h : Kept id files middle)
    (h' : Kept id middle later) (hheld : files.held = some id)
    (heq : (files.node id).changed = (later.node id).changed) :
    (middle.node id).bytes = (files.node id).bytes ∧
      (later.node id).bytes = (files.node id).bytes := by
  have hsame := h.same h' hheld heq
  obtain ⟨hheld', -, hbytes⟩ := h hheld
  have hmiddle := hbytes hsame
  exact ⟨hmiddle, ((h' hheld').2.2 (hsame.symm.trans heq)).trans hmiddle⟩

end Kept

/-! ## What an access finds -/

theorem access_eq_ok {α β : Type} {files : Files} {found : Option α} {g : α → β} {b : β}
    (h : ((files.access found).map g).mapError IoError.map_io_error = .ok b) :
    files.fault = none ∧ ∃ a, found = some a ∧ g a = b := by
  unfold Files.access at h
  split at h
  · cases h
  · rename_i hfault
    split at h
    · exact ⟨hfault, _, rfl, Except.ok.inj h⟩
    · cases h

section Reader

variable {changes : ℕ → List Change} {t t' : Timeline Files}

theorem kept_look {α : Type} {f : Files → EvidenceResult α} {a : α}
    (h : look (writers changes) f t = .ok (a, t')) (id : FileId) : Kept id t.now t'.now := by
  rw [(look_eq_ok h).2]
  exact Kept.upto id changes t

theorem symlink_metadata_eq_ok {path : List UInt8} {metadata : Metadata}
    (h : symlink_metadata changes path t = .ok (metadata, t')) :
    t'.now.fault = none ∧ t'.now.entry path = some metadata.id ∧
      metadata.node = t'.now.node metadata.id := by
  obtain ⟨hfault, id, hentry, rfl⟩ := access_eq_ok (look_eq_ok h).1
  exact ⟨hfault, hentry, rfl⟩

theorem file_metadata_eq_ok {metadata : Metadata}
    (h : file_metadata changes t = .ok (metadata, t')) :
    t'.now.held = some metadata.id ∧ metadata.node = t'.now.node metadata.id := by
  obtain ⟨-, id, hheld, rfl⟩ := access_eq_ok (look_eq_ok h).1
  exact ⟨hheld, rfl⟩

theorem read_chunk_eq_ok {id : FileId} {position room : ℕ} {chunk : List UInt8}
    (h : read_chunk changes position room t = .ok (chunk, t')) (hheld : t'.now.held = some id) :
    ∃ n, chunk = ((t'.now.node id).bytes.drop position).take n := by
  obtain ⟨-, other, hother, rfl⟩ := access_eq_ok (look_eq_ok h).1
  rw [hheld] at hother
  cases hother
  exact ⟨_, rfl⟩

theorem forward_read_all (read_limit rounds : ℕ) (bytes : List UInt8) :
    Forward (read_all changes read_limit rounds bytes) := by
  induction rounds generalizing bytes with
  | zero => exact forward_pure bytes
  | succ rounds ih =>
    refine Forward.bind (forward_look _ _) fun chunk => ?_
    split
    · exact forward_pure bytes
    · exact ih _

/-- What has been read, with the next piece of the file. -/
theorem prefix_append_chunk {bytes contents : List UInt8} (h : bytes <+: contents) (n : ℕ) :
    bytes ++ (contents.drop bytes.length).take n <+: contents := by
  obtain ⟨rest, rfl⟩ := h
  rw [List.drop_left]
  exact (List.prefix_append_right_inj bytes).mpr (List.take_prefix n rest)

theorem kept_read_all {read_limit rounds : ℕ} {bytes bytes' : List UInt8}
    (h : read_all changes read_limit rounds bytes t = .ok (bytes', t')) (id : FileId) :
    Kept id t.now t'.now := by
  induction rounds generalizing bytes t with
  | zero =>
    obtain ⟨-, rfl⟩ := reading_pure_eq_ok.mp h
    exact Kept.refl id t.now
  | succ rounds ih =>
    obtain ⟨chunk, t₁, hchunk, h⟩ := reading_bind_eq_ok.mp h
    refine (kept_look hchunk id).trans ?_
    by_cases hend : chunk = []
    · rw [if_pos hend] at h
      obtain ⟨-, rfl⟩ := reading_pure_eq_ok.mp h
      exact Kept.refl id t₁.now
    · rw [if_neg hend] at h
      exact ih h

/-- **The reading loop.** If the file is unchanged at the end, what has been read is the
beginning of it. The induction is on the rounds; each piece comes from a state between the
start and the end, in which the file is as it was at the start. -/
theorem read_all_eq_ok {id : FileId} {start : Files} (hstart : start.held = some id)
    {read_limit rounds : ℕ} {bytes bytes' : List UInt8}
    (h : read_all changes read_limit rounds bytes t = .ok (bytes', t'))
    (hkept : Kept id start t.now)
    (hbytes : (start.node id).changed = (t.now.node id).changed →
      bytes <+: (start.node id).bytes)
    (hend : (start.node id).changed = (t'.now.node id).changed) :
    bytes' <+: (start.node id).bytes := by
  induction rounds generalizing bytes t with
  | zero =>
    obtain ⟨rfl, rfl⟩ := reading_pure_eq_ok.mp h
    exact hbytes hend
  | succ rounds ih =>
    obtain ⟨chunk, t₁, hchunk, h⟩ := reading_bind_eq_ok.mp h
    have hnext : Kept id t.now t₁.now := kept_look hchunk id
    have hkept₁ : Kept id start t₁.now := hkept.trans hnext
    have hread : (start.node id).changed = (t₁.now.node id).changed →
        bytes ++ chunk <+: (start.node id).bytes := by
      intro heq
      obtain ⟨n, rfl⟩ := read_chunk_eq_ok hchunk (hkept₁ hstart).1
      rw [(hkept₁ hstart).2.2 heq]
      exact prefix_append_chunk (hbytes (hkept.same hnext hstart heq)) n
    by_cases hlast : chunk = []
    · rw [if_pos hlast] at h
      obtain ⟨rfl, rfl⟩ := reading_pure_eq_ok.mp h
      exact (List.prefix_append bytes chunk).trans (hread hend)
    · rw [if_neg hlast] at h
      exact ih h hkept₁ hread

theorem forward_verify_after_read (root : CanonicalDirectory) (candidate : Str)
    (source : CanonicalPath) (before after : Metadata) (bytes_read : ℕ) :
    Forward (verify_after_read changes root candidate source before after bytes_read) :=
  .bind (forward_look _ _) fun _ => .bind (forward_look _ _) fun _ =>
    .bind (forward_decideOn _) fun _ => forward_pure _

theorem forward_read_stable_text (root : CanonicalDirectory) (candidate : Str)
    (maximum_bytes : ℕ) : Forward (read_stable_text changes root candidate maximum_bytes) := by
  have hverify : ∀ source path_before opened,
      Forward (verify_open_path changes root candidate source path_before opened) :=
    fun _ _ _ => .bind (forward_look _ _) fun _ => .bind (forward_look _ _) fun _ =>
      .bind (forward_decideOn _) fun _ => forward_pure _
  exact .bind (forward_decideOn _) fun _ => .bind (forward_look _ _) fun _ =>
    .bind (forward_decideOn _) fun _ => .bind (forward_look _ _) fun _ =>
    .bind (forward_act _ _) fun _ => .bind (forward_look _ _) fun _ =>
    .bind (hverify _ _ _) fun _ => .bind (forward_decideOn _) fun _ =>
    .bind (forward_read_all _ _ _) fun _ => .bind (forward_decideOn _) fun _ =>
    .bind (forward_look _ _) fun _ => .bind (forward_verify_after_read _ _ _ _ _ _) fun _ =>
    .bind (forward_decideOn _) fun _ => .bind (forward_act _ _) fun _ => forward_pure _

/-- What an undisturbed reader gets from a path that leads to a regular file. -/
theorem view_read_stable_text {files : Files} {root : CanonicalDirectory} {candidate : Str}
    {maximum_bytes : ℕ} {id : FileId} {file : StableTextFile} (hfault : files.fault = none)
    (hentry : files.entry (join_path root candidate) = some id)
    (hfile : (files.node id).is_file = true)
    (hlength : (files.node id).bytes.length ≤ maximum_bytes)
    (hutf8 : utf8_text (files.node id).bytes = .ok file) :
    Evidence.read_stable_text files.view root candidate maximum_bytes = .ok file := by
  have hcontents : files.view.contents (join_path root candidate) =
      .ok (files.node id).bytes := by
    refine bind_eq_ok.mpr ⟨id, ?_, bind_eq_ok.mpr ⟨_, ensure_ok hfile _, rfl⟩⟩
    unfold Files.access
    rw [hfault, hentry]
    rfl
  exact bind_eq_ok.mpr ⟨_, hcontents, bind_eq_ok.mpr ⟨_, ensure_ok hlength _, hutf8⟩⟩

/-- **A text that was read is a snapshot.** Whatever others do, a call of `read_stable_text`
that returns a file returns what an undisturbed reader gets at one instant of the call, and
that is the contents of the path at that instant.

The instant is that of the second look at the path. The file that is open was the same from
the look at it after the opening to the one after the reading, since its time of change was. -/
theorem read_stable_text_snapshot {root : CanonicalDirectory} {candidate : Str}
    {maximum_bytes : ℕ} {file : StableTextFile}
    (h : read_stable_text changes root candidate maximum_bytes t = .ok (file, t')) :
    Sometime t t' fun files => files.content (join_path root candidate) = some (as_bytes file.text) ∧
      Evidence.read_stable_text files.view root candidate maximum_bytes = .ok file := by
  obtain ⟨_, _, hlimit, h⟩ := reading_bind_eq_ok.mp h
  obtain ⟨-, rfl⟩ := decideOn_eq_ok.mp hlimit
  obtain ⟨path_before, t₁, hbefore, h⟩ := reading_bind_eq_ok.mp h
  obtain ⟨⟨_, hfile⟩, _, hregular, h⟩ := reading_bind_eq_ok.mp h
  obtain ⟨-, rfl⟩ := decideOn_eq_ok.mp hregular
  obtain ⟨source, t₂, hsource, h⟩ := reading_bind_eq_ok.mp h
  obtain ⟨_, t₃, hopen, h⟩ := reading_bind_eq_ok.mp h
  -- The file is held open; `t₄` is the first look at it.
  obtain ⟨opened, t₄, hopened, h⟩ := reading_bind_eq_ok.mp h
  obtain ⟨hheld, hnode⟩ := file_metadata_eq_ok hopened
  obtain ⟨_, t₅, hverify, h⟩ := reading_bind_eq_ok.mp h
  -- At `u` the path leads to the file.
  obtain ⟨path_after, u, hafter, hverify⟩ := reading_bind_eq_ok.mp hverify
  obtain ⟨source_after, t₆, hcanonical, hverify⟩ := reading_bind_eq_ok.mp hverify
  obtain ⟨⟨_, hidentity, hidentity', _⟩, _, hsame, hverify⟩ := reading_bind_eq_ok.mp hverify
  obtain ⟨-, rfl⟩ := decideOn_eq_ok.mp hsame
  obtain ⟨-, rfl⟩ := reading_pure_eq_ok.mp hverify
  obtain ⟨hfault, hentry, hnode'⟩ := symlink_metadata_eq_ok hafter
  obtain ⟨_, _, hsize, h⟩ := reading_bind_eq_ok.mp h
  obtain ⟨-, rfl⟩ := decideOn_eq_ok.mp hsize
  obtain ⟨bytes, t₇, hread, h⟩ := reading_bind_eq_ok.mp h
  obtain ⟨⟨hlimit⟩, _, hgrown, h⟩ := reading_bind_eq_ok.mp h
  obtain ⟨-, rfl⟩ := decideOn_eq_ok.mp hgrown
  -- At `t₈` it is looked at for the last time.
  obtain ⟨after, t₈, hlast, h⟩ := reading_bind_eq_ok.mp h
  obtain ⟨hheld', hnode''⟩ := file_metadata_eq_ok hlast
  obtain ⟨_, t₉, hverify, h⟩ := reading_bind_eq_ok.mp h
  have hforward : t₈.Before t₉ := forward_verify_after_read _ _ _ _ _ _ _ _ _ hverify
  obtain ⟨_, _, -, hverify⟩ := reading_bind_eq_ok.mp hverify
  obtain ⟨_, _, -, hverify⟩ := reading_bind_eq_ok.mp hverify
  obtain ⟨⟨_, hidentity'', _, _, hcount⟩, _⟩ := reading_bind_eq_ok.mp hverify
  obtain ⟨text, _, htext, h⟩ := reading_bind_eq_ok.mp h
  obtain ⟨htext', rfl⟩ := decideOn_eq_ok.mp htext
  obtain ⟨_, t₁₀, hclose, h⟩ := reading_bind_eq_ok.mp h
  obtain ⟨rfl, rfl⟩ := reading_pure_eq_ok.mp h
  obtain ⟨-, hmode, -, -⟩ := identity_eq hidentity
  obtain ⟨hid, hmode', -, -⟩ := identity_eq hidentity'
  obtain ⟨hid', -, hlength, hchanged⟩ := identity_eq hidentity''
  rw [hid] at hentry hnode'
  rw [hnode, hnode'', ← hid'] at hchanged
  -- The file is the same from `t₄` to `t₈`, and so is what it has at `u`.
  have hkept : Kept opened.id t₄.now u.now := kept_look hafter _
  have hkept₆ : Kept opened.id u.now t₆.now := kept_look hcanonical _
  have hkept₈ : Kept opened.id t₇.now t₈.now := kept_look hlast _
  have hkept₇ : Kept opened.id t₆.now t₇.now := kept_read_all hread _
  obtain ⟨hu, hend⟩ := hkept.between ((hkept₆.trans hkept₇).trans hkept₈) hheld hchanged
  have hall : bytes = (t₄.now.node opened.id).bytes := by
    have hstay : (t₄.now.node opened.id).changed = (t₇.now.node opened.id).changed :=
      ((hkept.trans hkept₆).trans hkept₇).same hkept₈ hheld hchanged
    refine (read_all_eq_ok hheld hread (hkept.trans hkept₆) (fun _ => List.nil_prefix)
      hstay).eq_of_length ?_
    rw [hcount, ← hlength, hnode]
  have hutf8 : utf8_text (u.now.node opened.id).bytes = .ok text := by
    rw [hu, ← hall]
    exact htext'
  have hstart : t.Before u :=
    ((((forward_look _ _ _ _ _ hbefore).trans (forward_look _ _ _ _ _ hsource)).trans
      (forward_act _ _ _ _ _ hopen)).trans (forward_look _ _ _ _ _ hopened)).trans
        (forward_look _ _ _ _ _ hafter)
  have hrest : u.Before t₁₀ :=
    ((((forward_look _ _ _ _ _ hcanonical).trans (forward_read_all _ _ _ _ _ _ hread)).trans
      (forward_look _ _ _ _ _ hlast)).trans hforward).trans (forward_act _ _ _ _ _ hclose)
  refine Sometime.within (Sometime.now hstart ⟨?_, ?_⟩) (.refl t) hrest
  · unfold Files.content
    rw [hentry, Option.map_some, utf8_text_eq_ok hutf8]
  · refine view_read_stable_text hfault hentry ?_ ?_ hutf8
    · rw [← hnode']
      exact is_file_of_mode (hmode'.trans hmode.symm) hfile
    · rw [hu, ← hall]
      exact hlimit

end Reader

/-! ## A reader that is not disturbed -/

section Undisturbed

variable {changes : ℕ → List Change} {t : Timeline Files}

/-- One access later, with nothing changed. -/
def tick (t : Timeline Files) : Timeline Files := { t with accesses := t.accesses + 1 }

theorem upto_eq_tick (hstill : ∀ n, changes n = []) (t : Timeline Files) :
    (writers changes).upto t = tick t := by
  unfold Surroundings.upto writers Timeline.pass tick
  simp [hstill]

theorem look_still (hstill : ∀ n, changes n = []) {α : Type} {f : Files → EvidenceResult α} {a : α}
    (h : f t.now = .ok a) : look (writers changes) f t = .ok (a, tick t) := by
  have hnow : f ((writers changes).upto t).now = .ok a := by
    rw [upto_eq_tick hstill]
    exact h
  unfold look
  rw [hnow, upto_eq_tick hstill]
  rfl

theorem act_still (hstill : ∀ n, changes n = []) {f : Files → EvidenceResult Files} {s : Files}
    (h : f t.now = .ok s) : act (writers changes) f t = .ok ((), (tick t).push s) := by
  have hnow : f ((writers changes).upto t).now = .ok s := by
    rw [upto_eq_tick hstill]
    exact h
  unfold act
  rw [hnow, upto_eq_tick hstill]
  rfl

/-- The same instants, some accesses later. -/
def Rested (t t' : Timeline Files) : Prop := t'.past = t.past ∧ t'.now = t.now

theorem Rested.history {t t' : Timeline Files} (h : Rested t t') : t'.history = t.history := by
  unfold Timeline.history
  rw [h.1, h.2]

theorem access_found {α β : Type} {files : Files} {found : Option α} {g : α → β} {a : α}
    (hfault : files.fault = none) (hfound : found = some a) :
    ((files.access found).map g).mapError IoError.map_io_error = .ok (g a) := by
  unfold Files.access
  rw [hfault, hfound]
  rfl

theorem symlink_metadata_still (hstill : ∀ n, changes n = []) {files : Files} (hnow : t.now = files)
    {path : List UInt8} {id : FileId} (hfault : files.fault = none)
    (hentry : files.entry path = some id) :
    symlink_metadata changes path t = .ok (⟨id, files.node id⟩, tick t) := by
  subst hnow
  exact look_still hstill (access_found hfault hentry)

/-- The loop gets to the end of the file: a round that is not the last brings at least a byte,
and there is room for one more than the file has. -/
theorem read_all_still (hstill : ∀ n, changes n = []) {id : FileId} (hfault : t.now.fault = none)
    (hheld : t.now.held = some id) {read_limit rounds n : ℕ}
    (hlimit : (t.now.node id).bytes.length < read_limit) (hrounds : read_limit ≤ n + rounds)
    (hn : n ≤ (t.now.node id).bytes.length) :
    ∃ t', read_all changes read_limit rounds ((t.now.node id).bytes.take n) t =
      .ok ((t.now.node id).bytes, t') ∧ Rested t t' := by
  induction rounds generalizing t n with
  | zero => omega
  | succ rounds ih =>
    set contents := (t.now.node id).bytes with hcontents
    have hlength : (contents.take n).length = n := List.length_take_of_le hn
    set room := min (min CHUNK_BYTES (read_limit - n)) (t.now.granted + 1) with hroom
    have hpositive : 0 < room := by
      have hchunk : 0 < CHUNK_BYTES := by decide
      omega
    have hchunk : read_chunk changes (contents.take n).length
        (min CHUNK_BYTES (read_limit - (contents.take n).length)) t =
          .ok ((contents.drop n).take room, tick t) := by
      rw [hlength]
      exact look_still hstill (access_found hfault hheld)
    by_cases hend : n = contents.length
    · refine ⟨tick t, reading_bind_eq_ok.mpr ⟨_, _, hchunk, ?_⟩, rfl, rfl⟩
      rw [if_pos (by rw [hend, List.drop_length, List.take_nil]), hend, List.take_length]
      rfl
    · have hmore : (contents.drop n).take room ≠ [] := by
        intro hnil
        have hzero := congrArg List.length hnil
        rw [List.length_take, List.length_drop, List.length_nil] at hzero
        omega
      have htake : contents.take n ++ (contents.drop n).take room =
          contents.take (min (n + room) contents.length) := by
        rw [← List.take_add, ← List.take_eq_take_min]
      obtain ⟨t', hrun, hrest⟩ := ih (t := tick t) (n := min (n + room) contents.length) hfault
        hheld hlimit (by omega) (Nat.min_le_right _ _)
      refine ⟨t', reading_bind_eq_ok.mpr ⟨_, _, hchunk, ?_⟩, hrest⟩
      rw [if_neg hmore, htake]
      exact hrun

/-- **A reader that is not disturbed** gets the text of the file. -/
theorem undisturbed_read (hstill : ∀ n, changes n = []) {root : CanonicalDirectory}
    {candidate : Str} {maximum_bytes : ℕ} {source : CanonicalPath} {id : FileId}
    {file : StableTextFile} (hfault : t.now.fault = none) (hheld : t.now.held = none)
    (hmaximum : maximum_bytes ≤ MAX_STABLE_TEXT_BYTES)
    (hentry : t.now.entry (join_path root candidate) = some id)
    (hsource : Evidence.canonicalize_contained t.now.view root candidate = .ok source)
    (htarget : t.now.target source.bytes = some id) (hfile : (t.now.node id).is_file = true)
    (hlength : (t.now.node id).bytes.length ≤ maximum_bytes)
    (htext : utf8_text (t.now.node id).bytes = .ok file) :
    ∃ t', read_stable_text changes root candidate maximum_bytes t = .ok (file, t') ∧
      t'.now = t.now ∧ t'.history = t.history ++ [{ t.now with held := some id }, t.now] := by
  have hlink : (t.now.node id).is_symlink = false := by
    unfold Node.is_file at hfile
    unfold Node.is_symlink
    rw [of_decide_eq_true hfile]
    rfl
  set found : Metadata := ⟨id, t.now.node id⟩ with hfound
  -- The timeline after the opening; every later access finds the same files in it.
  set opened : Timeline Files := (tick (tick (tick t))).push { t.now with held := some id }
    with hopened
  have hverify : verify_open_path changes root candidate source found found (tick opened) =
      .ok ((), tick (tick (tick opened))) :=
    reading_bind_eq_ok.mpr ⟨found, _, symlink_metadata_still hstill rfl hfault hentry,
      reading_bind_eq_ok.mpr ⟨source, _, look_still hstill hsource,
        reading_bind_eq_ok.mpr ⟨_, _, decideOn_eq_ok.mpr ⟨ensure_ok ⟨hlink, rfl, rfl, rfl⟩ _, rfl⟩,
          rfl⟩⟩⟩
  obtain ⟨t₁, hread, hpast, hnow⟩ : ∃ t₁, read_all changes (maximum_bytes + 1)
      (maximum_bytes + 1) [] (tick (tick (tick opened))) = .ok ((t.now.node id).bytes, t₁) ∧
        Rested (tick (tick (tick opened))) t₁ :=
    read_all_still (t := tick (tick (tick opened))) (n := 0) hstill hfault rfl
      (Nat.lt_succ_of_le hlength) (Nat.le_add_left _ _) (Nat.zero_le _)
  have hafter : file_metadata changes t₁ = .ok (found, tick t₁) := by
    refine look_still hstill ?_
    rw [hnow]
    exact access_found hfault rfl
  have hverified : verify_after_read changes root candidate source found found
      (t.now.node id).bytes.length (tick t₁) = .ok ((), tick (tick (tick t₁))) := by
    refine reading_bind_eq_ok.mpr ⟨found, tick (tick t₁),
      symlink_metadata_still (t := tick t₁) hstill hnow hfault hentry,
      reading_bind_eq_ok.mpr ⟨source, tick (tick (tick t₁)), look_still hstill ?_,
        reading_bind_eq_ok.mpr ⟨_, _,
          decideOn_eq_ok.mpr ⟨ensure_ok ⟨hlink, rfl, rfl, rfl, rfl⟩ _, rfl⟩, rfl⟩⟩⟩
    change Evidence.canonicalize_contained t₁.now.view root candidate = _
    rw [hnow]
    exact hsource
  have hclose : close_file changes (tick (tick (tick t₁))) =
      .ok ((), (tick (tick (tick (tick t₁)))).push t.now) := by
    refine act_still hstill ?_
    change Except.ok { t₁.now with held := none } = _
    rw [hnow]
    change Except.ok { t.now with held := none } = _
    rw [← hheld]
  refine ⟨(tick (tick (tick (tick t₁)))).push t.now, ?_, rfl, ?_⟩
  · exact reading_bind_eq_ok.mpr ⟨_, _, decideOn_eq_ok.mpr ⟨ensure_ok hmaximum _, rfl⟩,
      reading_bind_eq_ok.mpr ⟨found, _, symlink_metadata_still hstill rfl hfault hentry,
      reading_bind_eq_ok.mpr ⟨_, _, decideOn_eq_ok.mpr ⟨ensure_ok ⟨hlink, hfile⟩ _, rfl⟩,
      reading_bind_eq_ok.mpr ⟨source, _, look_still hstill hsource,
      reading_bind_eq_ok.mpr ⟨_, opened, act_still hstill (access_found hfault htarget),
      reading_bind_eq_ok.mpr ⟨found, _, look_still hstill (access_found hfault rfl),
      reading_bind_eq_ok.mpr ⟨_, _, hverify,
      reading_bind_eq_ok.mpr ⟨_, _, decideOn_eq_ok.mpr ⟨ensure_ok hlength _, rfl⟩,
      reading_bind_eq_ok.mpr ⟨_, _, hread,
      reading_bind_eq_ok.mpr ⟨_, _, decideOn_eq_ok.mpr ⟨ensure_ok hlength _, rfl⟩,
      reading_bind_eq_ok.mpr ⟨found, _, hafter,
      reading_bind_eq_ok.mpr ⟨_, _, hverified,
      reading_bind_eq_ok.mpr ⟨file, _, decideOn_eq_ok.mpr ⟨htext, rfl⟩,
      reading_bind_eq_ok.mpr ⟨_, _, hclose, rfl⟩⟩⟩⟩⟩⟩⟩⟩⟩⟩⟩⟩⟩⟩
  · rw [Timeline.history_push]
    change t₁.history ++ [t.now] = _
    rw [Rested.history ⟨hpast, hnow⟩]
    change opened.history ++ [t.now] = _
    rw [hopened, Timeline.history_push, List.append_assoc]
    rfl

end Undisturbed

end Live

end LeanBun.Evidence
