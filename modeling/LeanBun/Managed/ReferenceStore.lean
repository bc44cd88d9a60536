/-
Publishing the package references of a generation.

A call checks its report, writes the record under a name of its own, seals it and renames
it to the generation's name; when there is a record already it only compares. The calls
come one after another and each of them can stop between two steps. The record is read
back after the rename, under a limit that the writer does not know: a record above it
stays although the call fails.
-/
import LeanBun.Managed.Controller
import LeanBun.Managed.References

set_option autoImplicit false

namespace LeanBun.Managed

open LeanBun.Lib LeanBun.Core LeanBun.Lock LeanBun.Generation

def MAX_REFERENCE_RECORD_BYTES : ℕ := 4 * 1024 * 1024

/-! ## The directory of the records -/

/-- A file with its permission bits and the time of its last write. -/
structure ReferenceFile where
  bytes : List UInt8
  mode : ℕ
  modified : ℕ
deriving DecidableEq

/-- The directory `package-references` of a project. -/
structure ReferenceDirectory where
  present : Bool
  files : Str → Option ReferenceFile

namespace ReferenceDirectory

/-- The directory with one file put in place or taken away. -/
def put (s : ReferenceDirectory) (name : Str) (file : Option ReferenceFile) : ReferenceDirectory :=
  { s with files := Function.update s.files name file }

@[simp] theorem put_present (s : ReferenceDirectory) (name : Str) (file : Option ReferenceFile) :
    (s.put name file).present = s.present := rfl

@[simp] theorem put_same (s : ReferenceDirectory) (name : Str) (file : Option ReferenceFile) :
    (s.put name file).files name = file := Function.update_self ..

theorem put_other (s : ReferenceDirectory) {name other : Str} (file : Option ReferenceFile)
    (h : other ≠ name) : (s.put name file).files other = s.files other :=
  Function.update_of_ne h ..

@[simp] theorem put_put (s : ReferenceDirectory) (name : Str) (a b : Option ReferenceFile) :
    (s.put name a).put name b = s.put name b := by
  unfold put
  rw [Function.update_idem]

end ReferenceDirectory

abbrev ReferenceProg (α : Type) := Prog ReferenceDirectory Unit ReadFailure α

/-- `map_err(io_error)`. -/
def io_failed : ReadFailure := .refused io_error

/-- The name of a generation's record. -/
def record_name (generation : Sha256) : Str := generation.to_string ++ ".record".toList

/-- What a call takes from its process: the id, the next value of `REFERENCE_COUNTER` and
the time of its write. -/
structure ReferenceProcess where
  id : ℕ
  counter : ℕ
  written_at : ℕ

/-- The name a call writes its record under. -/
def temporary_name (process : ReferenceProcess) (generation : Sha256) : Str :=
  '.' :: (generation.to_string ++ '-' :: (decimal process.id ++ '-' :: (decimal process.counter ++
    ".tmp".toList)))

/-! ## Steps -/

/-- `symlink_metadata`. -/
def symlink_metadata (name : Str) : ReferenceProg ReferenceFile :=
  Prog.read () fun s =>
    match s.files name with
    | none => .error io_failed
    | some file => .ok file

/-- `fs::read`. -/
def read_file (name : Str) : ReferenceProg (List UInt8) :=
  Prog.read () fun s =>
    match s.files name with
    | none => .error io_failed
    | some file => .ok file.bytes

/-- `Path::exists`. -/
def file_exists (name : Str) : ReferenceProg Bool := Prog.read () fun s => .ok (s.files name).isSome

/-- `stable_read`. -/
def stable_read_reference (name : Str) : ReferenceProg (List UInt8) := do
  let before ← symlink_metadata name
  let _ ← Prog.lift (ensure (before.bytes.length ≤ MAX_REFERENCE_RECORD_BYTES)
    (refused "generation reference is not a bounded regular file"))
  let bytes ← read_file name
  let after ← symlink_metadata name
  let _ ← Prog.lift (ensure (before.bytes.length = after.bytes.length ∧
      before.modified = after.modified ∧ bytes.length = before.bytes.length)
    (refused "generation reference changed while reading"))
  return bytes

/-- `ensure_private_directory`. -/
def ensure_private_directory : ReferenceProg Unit :=
  Prog.write () fun s => { s with present := true }

/-- `OpenOptions::create_new`. -/
def create_new (name : Str) (process : ReferenceProcess) : ReferenceProg Unit :=
  Prog.atomic (fun _ => ()) fun s =>
    if s.present = false ∨ (s.files name).isSome then (.error io_failed, s)
    else (.ok (), s.put name (some ⟨[], 0o600, process.written_at⟩))

/-- `write_all`. -/
def write_all (name : Str) (process : ReferenceProcess) (bytes : List UInt8) : ReferenceProg Unit :=
  Prog.write () fun s => s.put name ((s.files name).map fun file =>
    { file with bytes := bytes, modified := process.written_at })

/-- `set_permissions`. -/
def set_permissions (name : Str) (mode : ℕ) : ReferenceProg Unit :=
  Prog.atomic (fun _ => ()) fun s =>
    match s.files name with
    | none => (.error io_failed, s)
    | some file => (.ok (), s.put name (some { file with mode := mode }))

/-- `fs::rename`. -/
def rename (source target : Str) : ReferenceProg Unit :=
  Prog.atomic (fun _ => ()) fun s =>
    match s.files source with
    | none => (.error io_failed, s)
    | some file => (.ok (), (s.put source none).put target (some file))

/-- `fs::remove_file`, with its result dropped. -/
def remove_file (name : Str) : ReferenceProg Unit := Prog.write () fun s => s.put name none

/-! ## Publishing -/

/-- The lines that are the same in every record of one generation. -/
def is_stable_line (line : Str) : Bool :=
  !"artifact-cache-hits\t".toList.isPrefixOf line &&
    !"artifact-publications\t".toList.isPrefixOf line &&
    !"artifact-reuses\t".toList.isPrefixOf line

/-- `stable_lines`. -/
def stable_lines (bytes : List UInt8) : Option (List Str) :=
  (from_utf8 bytes).map fun text => (lines text).filter is_stable_line

/-- `same_reference_identity`. -/
def same_reference_identity (left right : List UInt8) : Bool :=
  decide (stable_lines left = stable_lines right)

/-- The report with its packages sorted by key. -/
def GenerationReferenceReportV1.with_sorted_packages (report : GenerationReferenceReportV1) :
    GenerationReferenceReportV1 :=
  { report with
    packages := sort_by_key PackageReferenceV1.package report.packages
    words := by
      rw [sort_by_key_length]
      exact report.words }

/-- The checks in front of the first step. -/
def admit_references (project_control : PathBuf) (project : ProjectId)
    (report : GenerationReferenceReportV1) : ReadResult GenerationReferenceReportV1 := do
  let _ ← ensure ((path_components project_control).getLast? = some project.to_string)
    (refused "generation references do not match project control identity")
  let _ ← ensure (report.packages.length ≤ report.source_references)
    (refused "generation reference counts are inconsistent")
  let artifacts ← add_usize report.artifact_reuses report.artifact_publications
  let _ ← ensure (artifacts = report.packages.length ∧
      report.artifact_cache_hits ≤ report.artifact_reuses)
    (refused "generation reference counts are inconsistent")
  let _ ← ensure (adjacent_equal PackageReferenceV1.package
      report.with_sorted_packages.packages = false)
    (refused "generation reference contains duplicate package")
  return report.with_sorted_packages

/-- The record of a generation, as the path the call returns. -/
def record_path (project_control : PathBuf) (generation : Sha256) : PathBuf :=
  path_join (path_join project_control "package-references".toList) (record_name generation)

/-- A record that is there is compared with the one to publish. -/
def compare_existing (generation : Sha256) (bytes : List UInt8) (message : String) :
    ReferenceProg Unit := do
  let existing ← stable_read_reference (record_name generation)
  let _ ← Prog.lift (parse_summary existing generation)
  let _ ← Prog.lift (ensure (same_reference_identity existing bytes = true) (refused message))
  return ()

/-- The steps from the new file to the record. -/
def write_record (process : ReferenceProcess) (generation : Sha256) (bytes : List UInt8) :
    ReferenceProg Unit := do
  let temporary := temporary_name process generation
  create_new temporary process
  write_all temporary process bytes
  set_permissions temporary 0o400
  match ← (rename temporary (record_name generation)).attempt with
  | .ok () => pure ()
  | .error error =>
    if ← file_exists (record_name generation) then do
      remove_file temporary
      compare_existing generation bytes "concurrent generation reference record conflicts"
    else Prog.lift (.error error)
  let written ← stable_read_reference (record_name generation)
  let _ ← Prog.lift (parse_summary written generation)
  return ()

/-- `publish_generation_references_v1`. -/
def publish_generation_references_v1 (process : ReferenceProcess) (project_control : PathBuf)
    (project : ProjectId) (report : GenerationReferenceReportV1) : ReferenceProg PathBuf := do
  let report ← Prog.lift (admit_references project_control project report)
  let bytes := as_bytes (encode report)
  ensure_private_directory
  if ← file_exists (record_name report.generation) then
    compare_existing report.generation bytes
      "generation reference record conflicts with existing bytes"
  else write_record process report.generation bytes
  return record_path project_control report.generation

/-- `read_generation_reference_summary_v1`. -/
def read_generation_reference_summary_v1 (generation : Sha256) :
    ReferenceProg (Option GenerationReferenceSummaryV1) := do
  match ← (Prog.read () fun s => .ok (s.files (record_name generation)) :
      ReferenceProg (Option ReferenceFile)) with
  | none => return none
  | some file =>
    let _ ← Prog.lift (ensure (file.mode % 0o1000 = 0o400)
      (refused "generation reference is not a sealed regular file"))
    let bytes ← stable_read_reference (record_name generation)
    let summary ← Prog.lift (parse_summary bytes generation)
    return some summary

/-! ## The steps -/

section Steps

variable {s : ReferenceDirectory} {name : Str} {file : ReferenceFile}

theorem record_name_ne_temporary (process : ReferenceProcess) (generation : Sha256) :
    record_name generation ≠ temporary_name process generation := by
  intro h
  have hall : generation.to_string.all is_lower_hex = true := hex_all_lower _
  have hne := sha256_text_ne_nil generation
  unfold record_name temporary_name at h
  match htext : generation.to_string, hne with
  | c :: rest, _ =>
    rw [htext, List.cons_append] at h
    rw [htext, List.all_cons, Bool.and_eq_true, (List.cons.inj h).1] at hall
    exact absurd hall.1 (by decide)

/-- Reading leaves the directory as it is, and gives the bytes of a file within the limit. -/
theorem stable_read_holds (hfile : s.files name = some file) :
    Prog.Holds (fun t => t = s)
      (fun bytes t => t = s ∧ bytes = file.bytes ∧ file.bytes.length ≤ MAX_REFERENCE_RECORD_BYTES)
      (fun _ t => t = s ∧ MAX_REFERENCE_RECORD_BYTES < file.bytes.length)
      (stable_read_reference name) s := by
  unfold stable_read_reference symlink_metadata read_file
  refine Prog.Holds.read_bind rfl (fun e he => ?_) fun before hbefore => ?_
  · rw [hfile] at he
    cases he
  rw [hfile] at hbefore
  rw [← Except.ok.inj hbefore]
  refine Prog.Holds.lift_bind rfl (fun e he => ?_) fun hlimit _ => ?_
  · exact ⟨rfl, not_le.mp (ensure_eq_error.mp he).1⟩
  refine Prog.Holds.read_bind rfl (fun e he => ?_) fun bytes hbytes => ?_
  · rw [hfile] at he
    cases he
  rw [hfile] at hbytes
  refine Prog.Holds.read_bind rfl (fun e he => ?_) fun after hafter => ?_
  · rw [hfile] at he
    cases he
  rw [hfile] at hafter
  rw [← Except.ok.inj hbytes, ← Except.ok.inj hafter]
  refine Prog.Holds.lift_bind rfl (fun e he => ?_) fun _ _ => ?_
  · exact absurd ⟨rfl, rfl, rfl⟩ (ensure_eq_error.mp he).1
  · exact ⟨rfl, rfl, rfl, hlimit.down⟩

/-- Comparing leaves the directory as it is. -/
theorem compare_existing_holds {generation : Sha256} {bytes : List UInt8} {message : String}
    {summary : GenerationReferenceSummaryV1} (hfile : s.files (record_name generation) = some file)
    (hlimit : file.bytes.length ≤ MAX_REFERENCE_RECORD_BYTES)
    (hparse : parse_summary file.bytes generation = .ok summary) :
    Prog.Holds (fun t => t = s)
      (fun _ t => t = s ∧ same_reference_identity file.bytes bytes = true)
      (fun _ t => t = s ∧ same_reference_identity file.bytes bytes = false)
      (compare_existing generation bytes message) s := by
  unfold compare_existing
  refine Prog.Holds.bind ((stable_read_holds hfile).mono (fun _ h => h) (fun _ _ _ h => h) ?_) ?_
  · rintro _ _ - ⟨-, hlarge⟩
    exact absurd hlimit (not_le.mpr hlarge)
  · rintro existing t - ⟨rfl, rfl, -⟩
    refine Prog.Holds.lift_bind rfl (fun e he => ?_) fun _ _ => ?_
    · rw [hparse] at he
      cases he
    refine Prog.Holds.lift_bind rfl (fun e he => ?_) fun hsame _ => ?_
    · exact ⟨rfl, Bool.eq_false_iff.mpr (ensure_eq_error.mp he).1⟩
    · exact ⟨rfl, rfl, hsame.down⟩

end Steps

/-! ## Writing a record -/

/-- There is no record yet, or the one that a call writes. -/
def Publishing (generation : Sha256) (file : ReferenceFile) (t : ReferenceDirectory) : Prop :=
  t.present = true ∧
    (t.files (record_name generation) = none ∨ t.files (record_name generation) = some file)

/-- **The steps of a new record.** At every point there is no record or the whole one. The
call returns when the record can be read back, and fails with the record in place when it
cannot. -/
theorem write_record_holds {process : ReferenceProcess} {generation : Sha256} {bytes : List UInt8}
    {s : ReferenceDirectory} (hpresent : s.present = true)
    (hrecord : s.files (record_name generation) = none)
    (hfree : s.files (temporary_name process generation) = none) :
    Prog.Holds (Publishing generation ⟨bytes, 0o400, process.written_at⟩)
      (fun _ t => t.files (record_name generation) = some ⟨bytes, 0o400, process.written_at⟩ ∧
        bytes.length ≤ MAX_REFERENCE_RECORD_BYTES ∧ ∃ r, parse_summary bytes generation = .ok r)
      (fun _ t => t.files (record_name generation) = some ⟨bytes, 0o400, process.written_at⟩ ∧
        (MAX_REFERENCE_RECORD_BYTES < bytes.length ∨
          ∃ e, parse_summary bytes generation = .error e))
      (write_record process generation bytes) s := by
  have hne := record_name_ne_temporary process generation
  have hput : ∀ file, Publishing generation ⟨bytes, 0o400, process.written_at⟩
      (s.put (temporary_name process generation) file) := by
    intro file
    refine ⟨hpresent, Or.inl ?_⟩
    rw [ReferenceDirectory.put_other s file hne, hrecord]
  unfold write_record create_new write_all set_permissions rename
  -- the new file, its bytes and its permissions
  refine Prog.Holds.bind (Prog.Holds.atomic_ok (if_neg ?_) ⟨hpresent, Or.inl hrecord⟩ (hput _) rfl
    (Q := fun _ t => t = s.put (temporary_name process generation)
      (some ⟨[], 0o600, process.written_at⟩))) ?_
  · rw [hpresent, hfree]
    simp
  rintro _ t - rfl
  refine Prog.Holds.bind (Prog.holds_write.mpr ⟨hput _, ?_, ?_⟩)
    (J := fun _ t => t = s.put (temporary_name process generation)
      (some ⟨bytes, 0o600, process.written_at⟩)) ?_
  · rw [ReferenceDirectory.put_put]
    exact hput _
  · simp
  rintro _ t - rfl
  refine Prog.Holds.bind (Prog.Holds.atomic_ok (show _ = (Except.ok (), s.put
      (temporary_name process generation) (some ⟨bytes, 0o400, process.written_at⟩)) by simp)
      (hput _) (hput _) (Q := fun _ t => t = s.put
      (temporary_name process generation) (some ⟨bytes, 0o400, process.written_at⟩)) rfl) ?_
  rintro _ t - rfl
  -- the rename, which finds the new file
  generalize ht : ((s.put (temporary_name process generation) none).put (record_name generation)
    (some ⟨bytes, 0o400, process.written_at⟩)) = t
  have hdone : t.files (record_name generation) = some ⟨bytes, 0o400, process.written_at⟩ := by
    rw [← ht, ReferenceDirectory.put_same]
  have hthere : t.present = true := by
    rw [← ht]
    exact hpresent
  refine Prog.Holds.attempt_bind (Prog.Holds.atomic_ok (show _ = (Except.ok (), t) by simp [← ht])
    (hput _) ⟨hthere, Or.inr hdone⟩ ?_)
  show Prog.Holds _ _ _ ((stable_read_reference (record_name generation)) >>= fun written => _) t
  refine Prog.Holds.bind ((stable_read_holds hdone).mono ?_ (fun _ _ _ h => h) ?_) ?_
  · rintro _ rfl
    exact ⟨hthere, Or.inr hdone⟩
  · rintro _ _ - ⟨rfl, hlarge⟩
    exact ⟨hdone, Or.inl hlarge⟩
  · rintro written _ - ⟨rfl, rfl, hlimit⟩
    refine Prog.Holds.lift_bind ⟨hthere, Or.inr hdone⟩ (fun e he => ?_) fun r hr => ?_
    · exact ⟨hdone, Or.inr ⟨e, he⟩⟩
    · exact ⟨⟨hthere, Or.inr hdone⟩, hdone, hlimit, r, hr⟩

/-! ## One call -/

theorem admit_references_eq_ok {project_control : PathBuf} {project : ProjectId}
    {report admitted : GenerationReferenceReportV1}
    (h : admit_references project_control project report = .ok admitted) :
    admitted = report.with_sorted_packages ∧ admitted.Consistent ∧ admitted.Sorted := by
  obtain ⟨_, -, h⟩ := bind_eq_ok.mp h
  obtain ⟨⟨hsources⟩, -, h⟩ := bind_eq_ok.mp h
  obtain ⟨artifacts, hartifacts, h⟩ := bind_eq_ok.mp h
  obtain ⟨⟨hsum, hhits⟩, -, h⟩ := bind_eq_ok.mp h
  obtain ⟨⟨hadjacent⟩, -, h⟩ := bind_eq_ok.mp h
  rw [← Except.ok.inj h]
  have hlength : report.with_sorted_packages.packages.length = report.packages.length :=
    sort_by_key_length _ _
  refine ⟨rfl, ⟨?_, ?_, hhits⟩, ?_⟩
  · rw [hlength]
    exact hsources
  · rw [hlength, ← hsum]
    exact (add_usize_eq_ok.mp hartifacts).1.symm
  · exact strictly_sorted_of_adjacent _ (sort_by_key_sorted _ _) hadjacent

theorem admit_references_generation {project_control : PathBuf} {project : ProjectId}
    {report admitted : GenerationReferenceReportV1}
    (h : admit_references project_control project report = .ok admitted) :
    admitted.generation = report.generation := by
  rw [(admit_references_eq_ok h).1]
  rfl

/-- An admitted report is read back from its record. -/
theorem admitted_read_back {project_control : PathBuf} {project : ProjectId}
    {report admitted : GenerationReferenceReportV1}
    (h : admit_references project_control project report = .ok admitted)
    (hword : admitted.packages.length + 1 < 2 ^ 64) :
    parse_summary (as_bytes (encode admitted)) admitted.generation = .ok admitted.summary :=
  parse_summary_eq_ok.mpr ⟨encode admitted, admitted, admitted.decimals, rfl,
    encode_spells admitted, rfl, (admit_references_eq_ok h).2.1, (admit_references_eq_ok h).2.2,
    hword, rfl⟩

/-- Lines of some length make a text of that length and a line feed each. -/
theorem unlines_length_ge {ls : List Str} {n : ℕ} (h : ∀ line ∈ ls, n ≤ line.length) :
    (n + 1) * ls.length ≤ (unlines ls).length := by
  induction ls with
  | nil => simp [unlines]
  | cons line ls ih =>
    have hrest := ih fun other hother => h other (List.mem_cons_of_mem _ hother)
    have hline := h line List.mem_cons_self
    have hcons : unlines (line :: ls) = line ++ '\n' :: unlines ls := by
      unfold unlines
      simp
    rw [hcons, List.length_append, List.length_cons, List.length_cons, Nat.mul_add]
    omega

theorem package_line_length (package : PackageReferenceV1) : 204 ≤ (package_line package).length := by
  unfold package_line tab_line
  simp only [List.intercalate, List.intersperse, List.flatten_cons, List.flatten_nil,
    List.length_append, List.length_cons, List.length_nil, Sha256.to_string_length]
  have hpackage : "package".toList.length = 7 := rfl
  omega

/-- A package takes at least 205 bytes of a record. -/
theorem packages_length_le (report : GenerationReferenceReportV1) :
    205 * report.packages.length ≤ (as_bytes (encode report)).length := by
  have hlines : 205 * (report.packages.map package_line).length ≤
      (unlines (report.packages.map package_line)).length := by
    apply unlines_length_ge
    intro line hline
    obtain ⟨package, -, rfl⟩ := List.mem_map.mp hline
    exact package_line_length package
  have hencode : (unlines (report.packages.map package_line)).length ≤ (encode report).length := by
    unfold encode record_lines_of unlines
    rw [List.flatMap_append, List.flatMap_append, List.length_append, List.length_append]
    omega
  have hbytes := length_le_byte_len (encode report)
  rw [List.length_map] at hlines
  unfold byte_len at hbytes
  omega

/-- A call for the references of one project. -/
structure ReferenceCall where
  process : ReferenceProcess
  report : GenerationReferenceReportV1

section Calls

variable (project_control : PathBuf) (project : ProjectId) (generation : Sha256)

def ReferenceCall.program (call : ReferenceCall) : ReferenceProg PathBuf :=
  publish_generation_references_v1 call.process project_control project call.report

/-- The report passes the checks, and this is what it is published as. -/
def ReferenceCall.Admits (call : ReferenceCall) (admitted : GenerationReferenceReportV1) : Prop :=
  admit_references project_control project call.report = .ok admitted

/-- **When a call keeps its word.** Where it has to write a record, the record is within the
reader's limit and the name it is written under is free. -/
def ReferenceCall.Fits (call : ReferenceCall) (s : ReferenceDirectory) : Prop :=
  ∀ admitted, call.Admits project_control project admitted →
    s.files (record_name call.report.generation) = none →
    (as_bytes (encode admitted)).length ≤ MAX_REFERENCE_RECORD_BYTES ∧
      s.files (temporary_name call.process call.report.generation) = none

/-- The record that is there, if any, has the identity lines of the call. -/
def ReferenceCall.Agrees (call : ReferenceCall) (s : ReferenceDirectory) : Prop :=
  ∀ admitted file, call.Admits project_control project admitted →
    s.files (record_name call.report.generation) = some file →
    same_reference_identity file.bytes (as_bytes (encode admitted)) = true

/-- The record that is there, if any, is one that a call has sealed. -/
def SealedRecord (s : ReferenceDirectory) : Prop :=
  ∀ file, s.files (record_name generation) = some file → s.present = true ∧ file.mode = 0o400 ∧
    file.bytes.length ≤ MAX_REFERENCE_RECORD_BYTES ∧
    ∃ summary, parse_summary file.bytes generation = .ok summary

end Calls

variable {project_control : PathBuf} {project : ProjectId} {generation : Sha256}
  {call : ReferenceCall} {admitted : GenerationReferenceReportV1} {s : ReferenceDirectory}
  {file : ReferenceFile}

theorem admits_generation (h : call.Admits project_control project admitted) :
    admitted.generation = call.report.generation := admit_references_generation h

/-- A call whose report is refused has no step. -/
theorem program_refused {e : ReadFailure}
    (h : admit_references project_control project call.report = .error e) :
    call.program project_control project = Prog.fail e := by
  unfold ReferenceCall.program publish_generation_references_v1
  rw [h]
  rfl

/-- **With a record.** The call changes nothing, and returns exactly when the identity lines
agree. -/
theorem program_holds_existing (hadmits : call.Admits project_control project admitted)
    (hsealed : SealedRecord call.report.generation s)
    (hfile : s.files (record_name call.report.generation) = some file) :
    Prog.Holds (fun t => t = s)
      (fun _ t => t = s ∧ same_reference_identity file.bytes (as_bytes (encode admitted)) = true)
      (fun _ t => t = s ∧ same_reference_identity file.bytes (as_bytes (encode admitted)) = false)
      (call.program project_control project) s := by
  obtain ⟨hpresent, -, hlimit, summary, hparse⟩ := hsealed file hfile
  have hsame : { s with present := true } = s := by
    rw [← hpresent]
  unfold ReferenceCall.program publish_generation_references_v1
  rw [show admit_references project_control project call.report = .ok admitted from hadmits]
  show Prog.Holds _ _ _ (ensure_private_directory >>= fun _ => _) s
  refine Prog.Holds.write_bind rfl ?_
  show Prog.Holds _ _ _ _ { s with present := true }
  rw [hsame, admits_generation hadmits]
  refine Prog.Holds.read_bind rfl (fun e he => (by cases he)) fun found hfound => ?_
  rw [← Except.ok.inj hfound, hfile]
  refine Prog.Holds.bind (compare_existing_holds hfile hlimit hparse) ?_
  rintro _ t - ⟨rfl, hidentity⟩
  exact ⟨rfl, rfl, hidentity⟩

/-- **Without a record.** At every point there is no record or the call's, and the call
returns if its record is within the limit; if it is above, the call fails and the record
stays. -/
theorem program_holds_new (hadmits : call.Admits project_control project admitted)
    (hrecord : s.files (record_name call.report.generation) = none)
    (hfree : s.files (temporary_name call.process call.report.generation) = none) :
    Prog.Holds (fun t => t = s ∨ Publishing call.report.generation
        ⟨as_bytes (encode admitted), 0o400, call.process.written_at⟩ t)
      (fun _ t => t.files (record_name call.report.generation) =
          some ⟨as_bytes (encode admitted), 0o400, call.process.written_at⟩ ∧
        (as_bytes (encode admitted)).length ≤ MAX_REFERENCE_RECORD_BYTES)
      (fun _ t => t.files (record_name call.report.generation) =
          some ⟨as_bytes (encode admitted), 0o400, call.process.written_at⟩ ∧
        MAX_REFERENCE_RECORD_BYTES < (as_bytes (encode admitted)).length)
      (call.program project_control project) s := by
  unfold ReferenceCall.program publish_generation_references_v1
  rw [show admit_references project_control project call.report = .ok admitted from hadmits]
  show Prog.Holds _ _ _ (ensure_private_directory >>= fun _ => _) s
  refine Prog.Holds.write_bind (Or.inl rfl) ?_
  rw [admits_generation hadmits]
  have hstart : Publishing call.report.generation
      ⟨as_bytes (encode admitted), 0o400, call.process.written_at⟩ { s with present := true } :=
    ⟨rfl, Or.inl hrecord⟩
  refine Prog.Holds.read_bind (Or.inr hstart) (fun e he => (by cases he)) fun found hfound => ?_
  rw [← Except.ok.inj hfound]
  show Prog.Holds _ _ _ ((if (s.files (record_name call.report.generation)).isSome = true then _
    else _ : ReferenceProg PathBuf)) _
  rw [hrecord, if_neg (by decide)]
  refine Prog.Holds.bind ((write_record_holds (s := { s with present := true }) rfl hrecord
    hfree).mono (fun _ h => Or.inr h) (fun _ _ _ h => h) ?_) ?_
  · rintro e t - ⟨hdone, hlarge | ⟨e', herror⟩⟩
    · exact ⟨hdone, hlarge⟩
    · refine ⟨hdone, not_le.mp fun hsmall => ?_⟩
      have hword : admitted.packages.length + 1 < 2 ^ 64 := by
        have hlength := packages_length_le admitted
        unfold MAX_REFERENCE_RECORD_BYTES at hsmall
        omega
      have hread := admitted_read_back hadmits hword
      rw [admits_generation hadmits, herror] at hread
      cases hread
  · rintro _ t hpublishing ⟨hdone, hlimit, -⟩
    exact ⟨hpublishing, hdone, hlimit⟩

/-! ## Runs of calls -/

/-- The calls for a generation one after another, each of them stopped after some of its
steps or, when the number is large enough, at its end. -/
inductive PublicationRun (project_control : PathBuf) (project : ProjectId) (generation : Sha256)
    (s : ReferenceDirectory) : ReferenceDirectory → Prop
  | start : PublicationRun project_control project generation s s
  | call {t : ReferenceDirectory} (call : ReferenceCall) (n : ℕ)
      (before : PublicationRun project_control project generation s t)
      (named : call.report.generation = generation) (fits : call.Fits project_control project t) :
      PublicationRun project_control project generation s
        ((call.program project_control project).crash n t)

/-- A sealed record stays as it is under every call. -/
theorem crash_existing (hsealed : SealedRecord call.report.generation s)
    (hfile : s.files (record_name call.report.generation) = some file) (n : ℕ) :
    (call.program project_control project).crash n s = s := by
  cases hadmit : admit_references project_control project call.report with
  | error e =>
    rw [program_refused hadmit]
    cases n <;> rfl
  | ok admitted => exact (program_holds_existing hadmit hsealed hfile).crash n

/-- What a call of the run leaves where there was no record. -/
theorem crash_new (hadmits : call.Admits project_control project admitted)
    (hfits : call.Fits project_control project s)
    (hrecord : s.files (record_name call.report.generation) = none) (n : ℕ) :
    (call.program project_control project).crash n s = s ∨ Publishing call.report.generation
      ⟨as_bytes (encode admitted), 0o400, call.process.written_at⟩
      ((call.program project_control project).crash n s) :=
  (program_holds_new hadmits hrecord (hfits admitted hadmits hrecord).2).crash n

/-- A record within the limit is sealed. -/
theorem sealed_of_publishing {t : ReferenceDirectory}
    (hadmits : call.Admits project_control project admitted)
    (hlimit : (as_bytes (encode admitted)).length ≤ MAX_REFERENCE_RECORD_BYTES)
    (h : Publishing call.report.generation
      ⟨as_bytes (encode admitted), 0o400, call.process.written_at⟩ t) :
    SealedRecord call.report.generation t := by
  intro file hfile
  obtain ⟨hpresent, hnone | hsome⟩ := h
  · rw [hnone] at hfile
    cases hfile
  · rw [hsome] at hfile
    rw [← Option.some.inj hfile]
    have hword : admitted.packages.length + 1 < 2 ^ 64 := by
      have hlength := packages_length_le admitted
      unfold MAX_REFERENCE_RECORD_BYTES at hlimit
      omega
    have hread := admitted_read_back hadmits hword
    rw [admits_generation hadmits] at hread
    exact ⟨hpresent, rfl, hlimit, _, hread⟩

/-- **One call** keeps the record sealed. -/
theorem SealedRecord.crash (hsealed : SealedRecord call.report.generation s)
    (hfits : call.Fits project_control project s) (n : ℕ) :
    SealedRecord call.report.generation ((call.program project_control project).crash n s) := by
  by_cases hrecord : s.files (record_name call.report.generation) = none
  · cases hadmit : admit_references project_control project call.report with
    | error e =>
      rw [program_refused hadmit]
      cases n <;> exact hsealed
    | ok admitted =>
      rcases crash_new hadmit hfits hrecord n with hsame | hpublishing
      · rw [hsame]
        exact hsealed
      · exact sealed_of_publishing hadmit (hfits admitted hadmit hrecord).1 hpublishing
  · obtain ⟨file, hfile⟩ := Option.ne_none_iff_exists'.mp hrecord
    rw [crash_existing hsealed hfile n]
    exact hsealed

/-- **Every run** keeps it sealed, and keeps a record that is there. -/
theorem PublicationRun.sealed {t : ReferenceDirectory}
    (h : PublicationRun project_control project generation s t) (hs : SealedRecord generation s) :
    SealedRecord generation t := by
  induction h with
  | start => exact hs
  | call call n before named fits ih =>
    rw [← named] at ih ⊢
    exact SealedRecord.crash ih fits n

theorem PublicationRun.kept {t : ReferenceDirectory}
    (h : PublicationRun project_control project generation s t) (hs : SealedRecord generation s)
    (hfile : s.files (record_name generation) = some file) :
    t.files (record_name generation) = some file := by
  induction h with
  | start => exact hfile
  | call call n before named fits ih =>
    have hsealed := before.sealed hs
    rw [← named] at hsealed ih ⊢
    rw [crash_existing hsealed ih n]
    exact ih

/-- A call whose identity lines agree with what is there returns. -/
theorem ReferenceCall.returns (hadmits : call.Admits project_control project admitted)
    (hsealed : SealedRecord call.report.generation s)
    (hfits : call.Fits project_control project s) (hagrees : call.Agrees project_control project s) :
    ∃ path, ((call.program project_control project).run s).1 = .ok path := by
  by_cases hrecord : s.files (record_name call.report.generation) = none
  · obtain ⟨hlimit, hfree⟩ := hfits admitted hadmits hrecord
    rcases (program_holds_new hadmits hrecord hfree).run with ⟨path, hpath, -⟩ | ⟨e, -, -, hlarge⟩
    · exact ⟨path, hpath⟩
    · exact absurd hlimit (not_le.mpr hlarge)
  · obtain ⟨file, hfile⟩ := Option.ne_none_iff_exists'.mp hrecord
    rcases (program_holds_existing hadmits hsealed hfile).run with ⟨path, hpath, -⟩ | ⟨e, -, -, hother⟩
    · exact ⟨path, hpath⟩
    · rw [hagrees admitted file hadmits hfile] at hother
      cases hother

/-- What a call leaves agrees with it if what it found did. -/
theorem ReferenceCall.Agrees.crash (hsealed : SealedRecord call.report.generation s)
    (hfits : call.Fits project_control project s) (h : call.Agrees project_control project s)
    (n : ℕ) : call.Agrees project_control project
      ((call.program project_control project).crash n s) := by
  intro admitted file hadmits hfile
  by_cases hrecord : s.files (record_name call.report.generation) = none
  · rcases crash_new hadmits hfits hrecord n with hsame | ⟨-, hnone | hsome⟩
    · rw [hsame, hrecord] at hfile
      cases hfile
    · rw [hnone] at hfile
      cases hfile
    · rw [hsome] at hfile
      rw [← Option.some.inj hfile]
      exact decide_eq_true rfl
  · obtain ⟨other, hother⟩ := Option.ne_none_iff_exists'.mp hrecord
    rw [crash_existing hsealed hother n] at hfile
    exact h admitted file hadmits hfile

/-- A sealed record is read with the counts and keys it was written with. -/
theorem read_summary_run {summary : GenerationReferenceSummaryV1}
    (hsealed : SealedRecord generation s) (hfile : s.files (record_name generation) = some file)
    (hparse : parse_summary file.bytes generation = .ok summary) :
    (read_generation_reference_summary_v1 generation).run s = (.ok (some summary), s) := by
  obtain ⟨-, hmode, hlimit, -⟩ := hsealed file hfile
  apply Prog.Holds.run_eq (I := fun _ => True)
  unfold read_generation_reference_summary_v1
  refine Prog.Holds.read_bind trivial (fun e he => (by cases he)) fun found hfound => ?_
  rw [← Except.ok.inj hfound, hfile]
  refine Prog.Holds.lift_bind trivial (fun e he => ?_) fun _ _ => ?_
  · exact (ensure_eq_error.mp he).1 (by rw [hmode])
  refine Prog.Holds.bind ((stable_read_holds hfile).mono (fun _ _ => trivial)
    (fun _ _ _ h => h) ?_) ?_
  · rintro _ _ - ⟨-, hlarge⟩
    exact not_le.mpr hlarge hlimit
  · rintro bytes t - ⟨rfl, rfl, -⟩
    refine Prog.Holds.lift_bind trivial (fun e he => ?_) fun found hfound => ?_
    · rw [hparse] at he
      cases he
    · rw [hparse] at hfound
      rw [← Except.ok.inj hfound]
      exact ⟨trivial, rfl, rfl⟩

/-! ## The results -/

/-- **Published once.** In a run in which every record that has to be written is within the
reader's limit and finds its name free:

* the record, once there, stays as it is;
* a call whose identity lines differ from it fails and changes nothing;
* a call that fails leaves no record where there was none;
* a call that agrees with what is there returns, and so does a retry wherever it stopped;
* the record of a report is read with the counts and the keys of the report ever after. -/
theorem references_published_once {t : ReferenceDirectory}
    (hstart : s.files (record_name generation) = none)
    (hrun : PublicationRun project_control project generation s t) :
    (∀ file t', t.files (record_name generation) = some file →
      PublicationRun project_control project generation t t' →
      t'.files (record_name generation) = some file) ∧
    (∀ call : ReferenceCall, call.report.generation = generation →
      ∀ file, t.files (record_name generation) = some file →
      (∀ admitted, call.Admits project_control project admitted →
        same_reference_identity file.bytes (as_bytes (encode admitted)) = false) →
      ∃ e, (call.program project_control project).run t = (.error e, t)) ∧
    (∀ call : ReferenceCall, call.report.generation = generation →
      call.Fits project_control project t →
      ∀ e t', (call.program project_control project).run t = (.error e, t') →
      t.files (record_name generation) = none → t'.files (record_name generation) = none) ∧
    (∀ call : ReferenceCall, call.report.generation = generation →
      call.Fits project_control project t → call.Agrees project_control project t →
      (∃ admitted, call.Admits project_control project admitted) →
      ∀ n (retry : ReferenceCall), retry.report = call.report →
      retry.Fits project_control project ((call.program project_control project).crash n t) →
      retry.Agrees project_control project ((call.program project_control project).crash n t) ∧
      ∃ path, ((retry.program project_control project).run
        ((call.program project_control project).crash n t)).1 = .ok path) ∧
    (∀ call : ReferenceCall, call.report.generation = generation →
      call.Fits project_control project t → t.files (record_name generation) = none →
      ∀ admitted, call.Admits project_control project admitted →
      ∀ n, ((call.program project_control project).crash n t).files (record_name generation) ≠ none →
      ∀ t', PublicationRun project_control project generation
          ((call.program project_control project).crash n t) t' →
        (read_generation_reference_summary_v1 generation).run t' =
          (.ok (some admitted.summary), t')) := by
  have hsealed : SealedRecord generation t := hrun.sealed fun file hfile => by
    rw [hstart] at hfile
    cases hfile
  refine ⟨fun file t' hfile hlater => hlater.kept hsealed hfile, ?_, ?_, ?_, ?_⟩
  · rintro call rfl file hfile hdiffers
    cases hadmit : admit_references project_control project call.report with
    | error e =>
      rw [program_refused hadmit]
      exact ⟨e, rfl⟩
    | ok admitted =>
      rcases (program_holds_existing hadmit hsealed hfile).run with
        ⟨path, -, -, hsame⟩ | ⟨e, he, hstate, -⟩
      · rw [hdiffers admitted hadmit] at hsame
        cases hsame
      · exact ⟨e, Prod.ext he hstate⟩
  · rintro call rfl hfits e t' hfail hrecord
    cases hadmit : admit_references project_control project call.report with
    | error e' =>
      rw [program_refused hadmit] at hfail
      rw [← (Prod.mk.inj hfail).2]
      exact hrecord
    | ok admitted =>
      have hagrees : call.Agrees project_control project t := by
        intro _ file _ hfile
        rw [hrecord] at hfile
        cases hfile
      obtain ⟨path, hpath⟩ := ReferenceCall.returns hadmit hsealed hfits hagrees
      rw [hfail] at hpath
      cases hpath
  · rintro call rfl hfits hagrees ⟨admitted, hadmits⟩ n retry hreport hretry
    have hagain := hagrees.crash hsealed hfits n
    have hstill := hsealed.crash hfits n
    obtain ⟨process, report⟩ := retry
    obtain rfl : report = call.report := hreport
    have hsame : ReferenceCall.Admits project_control project ⟨process, call.report⟩ admitted :=
      hadmits
    exact ⟨hagain, ReferenceCall.returns hsame hstill hretry hagain⟩
  · rintro call rfl hfits hrecord admitted hadmits n hthere t' hlater
    obtain ⟨file, hfile⟩ := Option.ne_none_iff_exists'.mp hthere
    have hstill := hsealed.crash hfits n
    have hbytes : file.bytes = as_bytes (encode admitted) := by
      rcases crash_new hadmits hfits hrecord n with hsame | ⟨-, hnone | hsome⟩
      · rw [hsame, hrecord] at hfile
        cases hfile
      · exact absurd hnone hthere
      · rw [hsome] at hfile
        rw [← Option.some.inj hfile]
    have hword : admitted.packages.length + 1 < 2 ^ 64 := by
      have hlength := packages_length_le admitted
      have hlimit := (hfits admitted hadmits hrecord).1
      unfold MAX_REFERENCE_RECORD_BYTES at hlimit
      omega
    have hread := admitted_read_back hadmits hword
    rw [admits_generation hadmits, ← hbytes] at hread
    exact read_summary_run (hlater.sealed hstill) (hlater.kept hstill hfile) hread

/-! ## Calls on an empty directory -/

def empty_directory : ReferenceDirectory := ⟨false, fun _ => none⟩

def sample_project : ProjectId := ⟨Sha256.repeated 1⟩
def sample_control : PathBuf := "/state/".toList ++ sample_project.to_string

/-- The call for the empty report from a process with the given id. -/
def sample_call (id : ℕ) : ReferenceCall := ⟨⟨id, 1, 0⟩, empty_report⟩

theorem sample_admits (id : ℕ) :
    (sample_call id).Admits sample_control sample_project empty_report := by
  unfold ReferenceCall.Admits admit_references
  rw [ensure_ok (by decide +kernel)]
  rfl

theorem sample_fits {id : ℕ} {s : ReferenceDirectory}
    (h : s.files (temporary_name ⟨id, 1, 0⟩ empty_report.generation) = none) :
    (sample_call id).Fits sample_control sample_project s := by
  intro admitted hadmits _
  rw [show admitted = empty_report from Except.ok.inj (hadmits.symm.trans (sample_admits id))]
  exact ⟨by decide +kernel, h⟩

/-- A call that stops after the new file is retried from another process. -/
theorem references_published_once_sample :
    ∃ path, (((sample_call 2).program sample_control sample_project).run
      (((sample_call 1).program sample_control sample_project).crash 4 empty_directory)).1 =
        .ok path := by
  have hretry : (sample_call 2).Fits sample_control sample_project
      (((sample_call 1).program sample_control sample_project).crash 4 empty_directory) :=
    sample_fits (by decide +kernel)
  refine ((references_published_once rfl .start).2.2.2.1 (sample_call 1) rfl (sample_fits rfl)
    ?_ ⟨_, sample_admits 1⟩ 4 (sample_call 2) rfl hretry).2
  intro _ _ _ hfile
  cases hfile

theorem valid_atom_replicate {k : ℕ} (h : k ≤ MAX_NAME_BYTES) {allow_empty : Bool}
    (hempty : allow_empty = true ∨ 0 < k) :
    valid_atom (List.replicate k 'a') MAX_NAME_BYTES allow_empty = true := by
  have hlength : byte_len (List.replicate k 'a') = k := by
    rw [byte_len_ascii, List.length_replicate]
    intro c hc
    rw [List.eq_of_mem_replicate hc]
    decide
  have hcontrol : (List.replicate k 'a').any is_control = false := by
    rw [List.any_eq_false]
    intro c hc
    rw [List.eq_of_mem_replicate hc]
    decide
  have hnonempty : (!allow_empty && (List.replicate k 'a').isEmpty) = false := by
    rcases hempty with rfl | hpos
    · rfl
    · rw [Bool.and_eq_false_iff]
      right
      rw [List.isEmpty_eq_false_iff]
      rw [Ne, List.replicate_eq_nil_iff]
      exact Nat.ne_of_gt hpos
  unfold valid_atom
  rw [hnonempty, hlength, hcontrol, decide_eq_false (not_lt.mpr h)]
  rfl

/-- Keys that differ in the lengths of their parts. -/
def numbered_key (i : ℕ) : PackageKeyV1 where
  scope := List.replicate (i / 200 % 200) 'a'
  name := List.replicate (i % 200 + 1) 'a'
  scope_valid := valid_atom_replicate (by unfold MAX_NAME_BYTES; omega) (Or.inl rfl)
  name_valid := valid_atom_replicate (by unfold MAX_NAME_BYTES; omega) (Or.inr (Nat.succ_pos _))

theorem numbered_key_injective {i j : ℕ} (hi : i < 40000) (hj : j < 40000)
    (h : numbered_key i = numbered_key j) : i = j := by
  have hscope := congrArg (fun key => key.scope.length) h
  have hname := congrArg (fun key => key.name.length) h
  unfold numbered_key at hscope hname
  simp only [List.length_replicate] at hscope hname
  omega

/-- A report for that many new packages. -/
def numbered_report (n : ℕ) (h : n < 2 ^ 64) : GenerationReferenceReportV1 where
  generation := empty_report.generation
  source_references := n
  artifact_cache_hits := 0
  artifact_publications := n
  artifact_reuses := 0
  packages := (List.range n).map fun i =>
    ⟨numbered_key i, ⟨empty_report.generation⟩, ⟨empty_report.generation⟩, empty_report.generation⟩
  words := ⟨h, by decide, h, by decide, by rw [List.length_map, List.length_range]; exact h⟩

theorem numbered_report_length (n : ℕ) (h : n < 2 ^ 64) :
    (numbered_report n h).packages.length = n := by
  unfold numbered_report
  rw [List.length_map, List.length_range]

theorem numbered_report_admits {n : ℕ} (hn : n < 40000) (h : n < 2 ^ 64) :
    admit_references sample_control sample_project (numbered_report n h) =
      .ok (numbered_report n h).with_sorted_packages := by
  have hlength := numbered_report_length n h
  have hdistinct : ((numbered_report n h).packages.map PackageReferenceV1.package).Nodup := by
    unfold numbered_report
    rw [List.map_map]
    refine List.Nodup.map_on (fun i hi j hj heq => ?_) List.nodup_range
    exact numbered_key_injective ((List.mem_range.mp hi).trans hn) ((List.mem_range.mp hj).trans hn) heq
  unfold admit_references
  rw [ensure_ok (by decide +kernel)]
  refine bind_eq_ok.mpr ⟨_, rfl, ?_⟩
  refine bind_eq_ok.mpr ⟨_, ensure_ok hlength.le _, ?_⟩
  refine bind_eq_ok.mpr ⟨n, add_usize_eq_ok.mpr ⟨(Nat.zero_add n).symm, (Nat.zero_add n).symm ▸ h⟩, ?_⟩
  refine bind_eq_ok.mpr ⟨_, ensure_ok ⟨hlength.symm, Nat.zero_le _⟩ _, ?_⟩
  exact bind_eq_ok.mpr ⟨_, ensure_ok ((adjacent_equal_sort_iff _).mpr hdistinct) _, rfl⟩

/-- The record of so many packages is above the limit. -/
theorem numbered_record_large {n : ℕ} (hmany : 20461 ≤ n) (h : n < 2 ^ 64) :
    MAX_REFERENCE_RECORD_BYTES <
      (as_bytes (encode (numbered_report n h).with_sorted_packages)).length := by
  have hpackages := packages_length_le (numbered_report n h).with_sorted_packages
  have hlength : (numbered_report n h).with_sorted_packages.packages.length = n :=
    (sort_by_key_length _ _).trans (numbered_report_length n h)
  rw [hlength] at hpackages
  unfold MAX_REFERENCE_RECORD_BYTES
  omega

/-- A call whose record is above the limit fails and leaves the record. -/
theorem large_record_left (hadmits : call.Admits project_control project admitted)
    (hrecord : s.files (record_name call.report.generation) = none)
    (hfree : s.files (temporary_name call.process call.report.generation) = none)
    (hlarge : MAX_REFERENCE_RECORD_BYTES < (as_bytes (encode admitted)).length) :
    ∃ e t, (call.program project_control project).run s = (.error e, t) ∧
      t.files (record_name call.report.generation) ≠ none := by
  rcases (program_holds_new hadmits hrecord hfree).run with
    ⟨path, -, -, hlimit⟩ | ⟨e, he, hdone, -⟩
  · exact absurd hlimit (not_le.mpr hlarge)
  · refine ⟨e, _, Prod.ext he rfl, ?_⟩
    rw [hdone]
    simp

def oversized_call : ReferenceCall := ⟨⟨1, 1, 0⟩, numbered_report 21000 (by decide)⟩

/-- A call whose report passes the checks fails, and leaves a record where there was none. -/
theorem oversized_record_left :
    (∃ admitted, oversized_call.Admits sample_control sample_project admitted) ∧
    empty_directory.files (record_name oversized_call.report.generation) = none ∧
    ∃ e t, (oversized_call.program sample_control sample_project).run empty_directory =
        (.error e, t) ∧ t.files (record_name oversized_call.report.generation) ≠ none := by
  have hadmits : oversized_call.Admits sample_control sample_project
      (numbered_report 21000 (by decide)).with_sorted_packages :=
    numbered_report_admits (by decide) _
  exact ⟨⟨_, hadmits⟩, rfl, large_record_left hadmits rfl rfl (numbered_record_large (by decide) _)⟩

end LeanBun.Managed
