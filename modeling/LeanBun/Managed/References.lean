/-
The record of a generation's package references, its writer and its reader.

The record has a head of named counts and one line for each package. The writer has one
spelling for it. The reader goes through library routines that take more than that: its
lines may end with a carriage return and the last one may end with the text, a count may
have a plus sign and leading zeros, and the sums of counts are machine additions.
`parse_summary_iff` says exactly what is read, and `summary_reads_exactly_iff` when that is what
was written.
-/
import LeanBun.Managed.Record
import LeanBun.Build.PackageReuse

set_option autoImplicit false

namespace LeanBun.Managed

open LeanBun.Lib LeanBun.Core LeanBun.Lock LeanBun.Build

/-! ## Reports -/

/-- `PackageReferenceV1`. -/
structure PackageReferenceV1 where
  package : PackageKeyV1
  source : PackageSourceKeyV1
  build : PackageBuildKeyV1
  artifact : Sha256
deriving DecidableEq

/-- `GenerationReferenceReportV1`. Its counts are words of the machine, and so is the
length of its list. -/
structure GenerationReferenceReportV1 where
  generation : Sha256
  source_references : ℕ
  artifact_cache_hits : ℕ
  artifact_publications : ℕ
  artifact_reuses : ℕ
  packages : List PackageReferenceV1
  words : source_references < 2 ^ 64 ∧ artifact_cache_hits < 2 ^ 64 ∧
    artifact_publications < 2 ^ 64 ∧ artifact_reuses < 2 ^ 64 ∧ packages.length < 2 ^ 64

/-- `GenerationReferenceSummaryV1`. -/
structure GenerationReferenceSummaryV1 where
  source_references : ℕ
  artifact_references : ℕ
  artifact_cache_hits : ℕ
  artifact_publications : ℕ
  artifact_reuses : ℕ
  source_keys : List Sha256
  build_keys : List Sha256
deriving DecidableEq

/-- The counts of a report agree with its packages. -/
structure GenerationReferenceReportV1.Consistent (report : GenerationReferenceReportV1) : Prop where
  sources : report.packages.length ≤ report.source_references
  artifacts : report.artifact_reuses + report.artifact_publications = report.packages.length
  hits : report.artifact_cache_hits ≤ report.artifact_reuses

/-- The packages are strictly sorted by key. -/
def GenerationReferenceReportV1.Sorted (report : GenerationReferenceReportV1) : Prop :=
  report.packages.Pairwise fun left right => left.package < right.package

/-- The counts and the keys of a report. -/
def GenerationReferenceReportV1.summary (report : GenerationReferenceReportV1) :
    GenerationReferenceSummaryV1 where
  source_references := report.source_references
  artifact_references := report.packages.length
  artifact_cache_hits := report.artifact_cache_hits
  artifact_publications := report.artifact_publications
  artifact_reuses := report.artifact_reuses
  source_keys := report.packages.map fun package => package.source.digest
  build_keys := report.packages.map fun package => package.build.digest

/-! ## The writer -/

def reference_header : Str := "leanbun-generation-package-references-v1\t1".toList
def reference_footer : Str := "end-generation-package-references".toList

/-- The texts of the five counts, in the order of the record. -/
structure CountTexts where
  source_references : Str
  artifact_references : Str
  artifact_cache_hits : Str
  artifact_publications : Str
  artifact_reuses : Str

def CountTexts.all (values : CountTexts) : List Str :=
  [values.source_references, values.artifact_references, values.artifact_cache_hits,
    values.artifact_publications, values.artifact_reuses]

/-- The counts as the writer spells them. -/
def GenerationReferenceReportV1.decimals (report : GenerationReferenceReportV1) : CountTexts where
  source_references := decimal report.source_references
  artifact_references := decimal report.packages.length
  artifact_cache_hits := decimal report.artifact_cache_hits
  artifact_publications := decimal report.artifact_publications
  artifact_reuses := decimal report.artifact_reuses

/-- The lines in front of the packages. -/
def head_lines (generation : Sha256) (values : CountTexts) : List Str :=
  [reference_header, field_line "generation".toList generation.to_string,
    field_line "source-references".toList values.source_references,
    field_line "artifact-references".toList values.artifact_references,
    field_line "artifact-cache-hits".toList values.artifact_cache_hits,
    field_line "artifact-publications".toList values.artifact_publications,
    field_line "artifact-reuses".toList values.artifact_reuses]

/-- The line of one package. -/
def package_line (package : PackageReferenceV1) : Str :=
  tab_line ["package".toList, hex (as_bytes package.package.scope),
    hex (as_bytes package.package.name), package.source.digest.to_string,
    package.build.digest.to_string, package.artifact.to_string]

/-- All lines of a record, whatever way its counts are spelled. -/
def record_lines_of (report : GenerationReferenceReportV1) (values : CountTexts) : List Str :=
  head_lines report.generation values ++ (report.packages.map package_line ++ [reference_footer])

/-- `encode`. -/
def encode (report : GenerationReferenceReportV1) : Str :=
  unlines (record_lines_of report report.decimals)

/-! ## The reader -/

/-- How a reading ends without a result. An addition that overflows is no error of the
reader: with overflow checks the process panics, and without them it goes on with
another number. -/
inductive ReadFailure where
  | refused (error : ManagedProjectError)
  | overflow
deriving DecidableEq

abbrev ReadResult (α : Type) := Except ReadFailure α

def refused (message : String) : ReadFailure := .refused (input_error message)

/-- Addition of machine words. -/
def add_usize (a b : ℕ) : ReadResult ℕ := if a + b < 2 ^ 64 then .ok (a + b) else .error .overflow

/-- `field`, with the lines behind it. -/
def reference_field (expected : String) : List Str → ReadResult (Str × List Str)
  | [] => .error (refused "generation reference field is missing")
  | line :: rest =>
    match split_once '\t' line with
    | none => .error (refused "generation reference field is malformed")
    | some (name, value) =>
      if name ≠ expected.toList ∨ value = [] then
        .error (refused "generation reference field name or value drifted")
      else .ok (value, rest)

/-- `number`. -/
def number (value : Str) : ReadResult ℕ :=
  match usize_from_str value with
  | none => .error (refused "generation reference count is invalid")
  | some n => .ok n

/-- `number(field(..)?)?`. -/
def count_field (expected : String) (ls : List Str) : ReadResult (ℕ × List Str) := do
  let (value, rest) ← reference_field expected ls
  let n ← number value
  return (n, rest)

/-- `decode_hex`. -/
def decode_hex (value : Str) : ReadResult Str := do
  let _ ← ensure (byte_len value % 2 = 0) (refused "generation package reference hex is invalid")
  let _ ← ensure (value.all is_lower_hex = true)
    (refused "generation package reference hex is not lowercase canonical")
  match from_utf8 (pair_bytes value) with
  | none => .error (refused "generation package reference text is not UTF-8")
  | some text => .ok text

/-- `Sha256::parse` with its error. -/
def reference_digest (message : String) (value : Str) : ReadResult Sha256 :=
  match Sha256.parse value with
  | none => .error (refused message)
  | some digest => .ok digest

/-- What the loop over the packages keeps: the last package and the keys so far. -/
structure PackagesRead where
  previous : Option PackageKeyV1
  source_keys : List Sha256
  build_keys : List Sha256

/-- The body of the loop over the packages. -/
def parse_package (so_far : PackagesRead) (line : Str) : ReadResult PackagesRead := do
  let fields := split '\t' line
  let scope ← decode_hex (fields.getD 1 [])
  let name ← decode_hex (fields.getD 2 [])
  let package ← (PackageKeyV1.new scope name).mapError fun _ =>
    refused "generation package reference identity is invalid"
  let _ ← ensure (∀ prior ∈ so_far.previous, prior < package)
    (refused "generation package references are not strictly ordered")
  let source ← reference_digest "generation source reference key is invalid" (fields.getD 3 [])
  let build ← reference_digest "generation build reference key is invalid" (fields.getD 4 [])
  let _ ← reference_digest "generation artifact reference digest is invalid" (fields.getD 5 [])
  return ⟨some package, so_far.source_keys ++ [source], so_far.build_keys ++ [build]⟩

/-- A line that the loop over the packages is given. -/
def is_package_line (line : Str) : Bool :=
  decide ((split '\t' line).length = 6) && "package\t".toList.isPrefixOf line

/-- The counts of the head, and the lines behind it. -/
structure HeadRead where
  source_references : ℕ
  artifact_references : ℕ
  artifact_cache_hits : ℕ
  artifact_publications : ℕ
  artifact_reuses : ℕ
  remaining : List Str

/-- The reader up to the last count. -/
def parse_head (generation : Sha256) : List Str → ReadResult HeadRead
  | [] => .error (refused "generation reference header or identity drifted")
  | header :: ls => do
    let _ ← ensure (header = reference_header)
      (refused "generation reference header or identity drifted")
    let (named, ls) ← reference_field "generation" ls
    let _ ← ensure (named = generation.to_string)
      (refused "generation reference header or identity drifted")
    let (source_references, ls) ← count_field "source-references" ls
    let (artifact_references, ls) ← count_field "artifact-references" ls
    let (artifact_cache_hits, ls) ← count_field "artifact-cache-hits" ls
    let (artifact_publications, ls) ← count_field "artifact-publications" ls
    let (artifact_reuses, ls) ← count_field "artifact-reuses" ls
    return ⟨source_references, artifact_references, artifact_cache_hits, artifact_publications,
      artifact_reuses, ls⟩

/-- The checks of the counts against the lines behind the head. -/
def check_body (head : HeadRead) : ReadResult Unit := do
  let expected ← add_usize head.artifact_references 1
  let _ ← ensure (head.remaining.length = expected ∧
      head.remaining.getLast? = some reference_footer)
    (refused "generation reference body is inconsistent")
  let artifacts ← add_usize head.artifact_reuses head.artifact_publications
  let _ ← ensure (artifacts = head.artifact_references ∧
      head.artifact_cache_hits ≤ head.artifact_reuses ∧
      head.artifact_references ≤ head.source_references ∧
      (head.remaining.take head.artifact_references).all is_package_line = true)
    (refused "generation reference body is inconsistent")
  return ()

/-- `parse_summary`. -/
def parse_summary (bytes : List UInt8) (generation : Sha256) :
    ReadResult GenerationReferenceSummaryV1 :=
  match from_utf8 bytes with
  | none => .error (refused "generation reference is not UTF-8")
  | some text => do
    let head ← parse_head generation (lines text)
    check_body head
    let read ← (head.remaining.take head.artifact_references).foldlM parse_package ⟨none, [], []⟩
    return ⟨head.source_references, head.artifact_references, head.artifact_cache_hits,
      head.artifact_publications, head.artifact_reuses, read.source_keys, read.build_keys⟩

/-! ## What the parts of the reader take -/

theorem reference_field_eq_ok {expected : String} {ls rest : List Str} {value : Str}
    (hname : '\t' ∉ expected.toList) : reference_field expected ls = .ok (value, rest) ↔
      ls = field_line expected.toList value :: rest ∧ value ≠ [] := by
  unfold reference_field field_line
  cases ls with
  | nil => simp
  | cons line rest' =>
    dsimp only
    constructor
    · intro h
      split at h
      · cases h
      · next name found hsplit =>
        split at h
        · cases h
        · next hgood =>
          rw [not_or, not_not] at hgood
          obtain ⟨rfl, rfl⟩ := Prod.mk.inj (Except.ok.inj h)
          rw [(split_once_eq_some hsplit).1, hgood.1]
          exact ⟨rfl, hgood.2⟩
    · rintro ⟨hline, hne⟩
      obtain ⟨rfl, rfl⟩ := List.cons.inj hline
      rw [split_once_append hname]
      dsimp only
      rw [if_neg (by rw [not_or, not_not]; exact ⟨rfl, hne⟩)]

theorem number_eq_ok {value : Str} {n : ℕ} : number value = .ok n ↔ usize_from_str value = some n := by
  unfold number
  cases usize_from_str value with
  | none => simp
  | some m => simp

/-- A count in any spelling. -/
theorem count_field_eq_ok {expected : String} {ls rest : List Str} {n : ℕ}
    (hname : '\t' ∉ expected.toList) : count_field expected ls = .ok (n, rest) ↔
      ∃ value, ls = field_line expected.toList value :: rest ∧ usize_from_str value = some n := by
  unfold count_field
  constructor
  · intro h
    obtain ⟨⟨value, rest'⟩, hfield, h⟩ := bind_eq_ok.mp h
    obtain ⟨m, hnumber, h⟩ := bind_eq_ok.mp h
    obtain ⟨rfl, rfl⟩ := Prod.mk.inj (Except.ok.inj h)
    exact ⟨value, ((reference_field_eq_ok hname).mp hfield).1, number_eq_ok.mp hnumber⟩
  · rintro ⟨value, hls, hvalue⟩
    have hne : value ≠ [] := by
      rintro rfl
      cases hvalue
    refine bind_eq_ok.mpr ⟨(value, rest), (reference_field_eq_ok hname).mpr ⟨hls, hne⟩, ?_⟩
    exact bind_eq_ok.mpr ⟨n, number_eq_ok.mpr hvalue, rfl⟩

/-- The texts stand for the counts that were read. -/
structure CountTexts.Spell (values : CountTexts) (head : HeadRead) : Prop where
  source_references : usize_from_str values.source_references = some head.source_references
  artifact_references : usize_from_str values.artifact_references = some head.artifact_references
  artifact_cache_hits : usize_from_str values.artifact_cache_hits = some head.artifact_cache_hits
  artifact_publications :
    usize_from_str values.artifact_publications = some head.artifact_publications
  artifact_reuses : usize_from_str values.artifact_reuses = some head.artifact_reuses

theorem sha256_text_ne_nil (d : Sha256) : d.to_string ≠ [] := by
  intro hnil
  have hlength := d.to_string_length
  rw [hnil] at hlength
  cases hlength

/-- **The head.** -/
theorem parse_head_eq_ok {generation : Sha256} {ls : List Str} {head : HeadRead} :
    parse_head generation ls = .ok head ↔
      ∃ values : CountTexts, ls = head_lines generation values ++ head.remaining ∧
        values.Spell head := by
  constructor
  · intro h
    cases ls with
    | nil => cases h
    | cons header ls =>
      unfold parse_head at h
      obtain ⟨⟨hheader⟩, -, h⟩ := bind_eq_ok.mp h
      obtain ⟨⟨named, ls₀⟩, hnamed, h⟩ := bind_eq_ok.mp h
      obtain ⟨⟨hgeneration⟩, -, h⟩ := bind_eq_ok.mp h
      obtain ⟨⟨sources, ls₁⟩, hsources, h⟩ := bind_eq_ok.mp h
      obtain ⟨⟨artifacts, ls₂⟩, hartifacts, h⟩ := bind_eq_ok.mp h
      obtain ⟨⟨hits, ls₃⟩, hhits, h⟩ := bind_eq_ok.mp h
      obtain ⟨⟨publications, ls₄⟩, hpublications, h⟩ := bind_eq_ok.mp h
      obtain ⟨⟨reuses, ls₅⟩, hreuses, h⟩ := bind_eq_ok.mp h
      have hhead := Except.ok.inj h
      obtain ⟨v₁, rfl, hv₁⟩ := (count_field_eq_ok (by decide)).mp hsources
      obtain ⟨v₂, rfl, hv₂⟩ := (count_field_eq_ok (by decide)).mp hartifacts
      obtain ⟨v₃, rfl, hv₃⟩ := (count_field_eq_ok (by decide)).mp hhits
      obtain ⟨v₄, rfl, hv₄⟩ := (count_field_eq_ok (by decide)).mp hpublications
      obtain ⟨v₅, rfl, hv₅⟩ := (count_field_eq_ok (by decide)).mp hreuses
      obtain ⟨rfl, -⟩ := (reference_field_eq_ok (by decide)).mp hnamed
      rw [← hhead, hheader, hgeneration]
      exact ⟨⟨v₁, v₂, v₃, v₄, v₅⟩, rfl, hv₁, hv₂, hv₃, hv₄, hv₅⟩
  · rintro ⟨values, rfl, hvalues⟩
    unfold head_lines parse_head
    dsimp only [List.cons_append, List.nil_append]
    refine bind_eq_ok.mpr ⟨_, ensure_ok rfl _, ?_⟩
    refine bind_eq_ok.mpr ⟨_, (reference_field_eq_ok (by decide)).mpr
      ⟨rfl, sha256_text_ne_nil generation⟩, ?_⟩
    refine bind_eq_ok.mpr ⟨_, ensure_ok rfl _, ?_⟩
    refine bind_eq_ok.mpr ⟨_, (count_field_eq_ok (by decide)).mpr
      ⟨_, rfl, hvalues.source_references⟩, ?_⟩
    refine bind_eq_ok.mpr ⟨_, (count_field_eq_ok (by decide)).mpr
      ⟨_, rfl, hvalues.artifact_references⟩, ?_⟩
    refine bind_eq_ok.mpr ⟨_, (count_field_eq_ok (by decide)).mpr
      ⟨_, rfl, hvalues.artifact_cache_hits⟩, ?_⟩
    refine bind_eq_ok.mpr ⟨_, (count_field_eq_ok (by decide)).mpr
      ⟨_, rfl, hvalues.artifact_publications⟩, ?_⟩
    exact bind_eq_ok.mpr ⟨_, (count_field_eq_ok (by decide)).mpr
      ⟨_, rfl, hvalues.artifact_reuses⟩, rfl⟩

theorem byte_len_lower_hex {value : Str} (h : value.all is_lower_hex = true) :
    byte_len value = value.length := by
  have hascii : ∀ c ∈ "0123456789abcdef".toList, c.toNat ≤ 127 := by decide
  exact byte_len_ascii fun c hc => hascii c (lower_hex_mem (List.all_eq_true.mp h c hc))

theorem decode_hex_eq_ok {value text : Str} :
    decode_hex value = .ok text ↔ value = hex (as_bytes text) := by
  unfold decode_hex
  constructor
  · intro h
    obtain ⟨⟨heven⟩, -, h⟩ := bind_eq_ok.mp h
    obtain ⟨⟨hall⟩, -, h⟩ := bind_eq_ok.mp h
    split at h
    · cases h
    · next found hfound =>
      rw [← Except.ok.inj h, ← from_utf8_eq_some.mp hfound, hex_pair_bytes
        (byte_len_lower_hex hall ▸ heven) hall]
  · rintro rfl
    have hall := hex_all_lower (as_bytes text)
    have heven : byte_len (hex (as_bytes text)) % 2 = 0 := by
      rw [byte_len_lower_hex hall, hex_length]
      omega
    rw [ensure_ok heven, ensure_ok hall, pair_bytes_hex]
    show (match from_utf8 (as_bytes text) with | none => _ | some text => _) = _
    rw [from_utf8_as_bytes]

theorem sha256_parse_eq_some {value : Str} {d : Sha256} (h : Sha256.parse value = some d) :
    value = d.to_string := by
  unfold Sha256.parse at h
  split at h
  · next hvalue =>
    rw [← Option.some.inj h]
    exact (hex_pair_bytes (by rw [hvalue.1]) hvalue.2).symm
  · cases h

theorem reference_digest_eq_ok {message : String} {value : Str} {d : Sha256} :
    reference_digest message value = .ok d ↔ value = d.to_string := by
  unfold reference_digest
  constructor
  · intro h
    split at h
    · cases h
    · next found hfound =>
      rw [← Except.ok.inj h]
      exact sha256_parse_eq_some hfound
  · rintro rfl
    rw [Sha256.parse_to_string]

/-! ## Package lines -/

theorem package_fields_token (package : PackageReferenceV1) :
    ∀ field ∈ ["package".toList, hex (as_bytes package.package.scope),
      hex (as_bytes package.package.name), package.source.digest.to_string,
      package.build.digest.to_string, package.artifact.to_string], IsToken field := by
  intro field hfield
  simp only [List.mem_cons, List.not_mem_nil, or_false] at hfield
  rcases hfield with rfl | rfl | rfl | rfl | rfl | rfl
  · unfold IsToken
    decide
  · exact hex_token _
  · exact hex_token _
  · exact Sha256.to_string_token _
  · exact Sha256.to_string_token _
  · exact Sha256.to_string_token _

theorem split_package_line (package : PackageReferenceV1) : split '\t' (package_line package) =
    ["package".toList, hex (as_bytes package.package.scope), hex (as_bytes package.package.name),
      package.source.digest.to_string, package.build.digest.to_string,
      package.artifact.to_string] :=
  split_tab_line _ (List.cons_ne_nil _ _) (package_fields_token package)

theorem package_line_plain (package : PackageReferenceV1) :
    '\n' ∉ package_line package ∧ '\r' ∉ package_line package :=
  ⟨tab_line_not_mem (by decide) _ fun f hf => (package_fields_token package f hf).not_mem (by decide),
    tab_line_not_mem (by decide) _ fun f hf => (package_fields_token package f hf).not_mem (by decide)⟩

theorem is_package_line_package_line (package : PackageReferenceV1) :
    is_package_line (package_line package) = true := by
  unfold is_package_line
  rw [split_package_line]
  rfl

/-- A line that the loop is given has its six fields. -/
theorem is_package_line_fields {line : Str} (h : is_package_line line = true) :
    ∃ f₁ f₂ f₃ f₄ f₅, split '\t' line = ["package".toList, f₁, f₂, f₃, f₄, f₅] := by
  unfold is_package_line at h
  rw [Bool.and_eq_true, decide_eq_true_eq, List.isPrefixOf_iff_prefix] at h
  obtain ⟨hlength, rest, rfl⟩ := h
  have hsplit : split '\t' ("package\t".toList ++ rest) = "package".toList :: split '\t' rest := by
    have hname : '\t' ∉ "package".toList := by decide
    exact List.splitOn_append_cons_self_of_not_mem hname rest
  rw [hsplit, List.length_cons] at hlength
  rw [hsplit]
  match split '\t' rest, hlength with
  | [f₁, f₂, f₃, f₄, f₅], _ => exact ⟨f₁, f₂, f₃, f₄, f₅, rfl⟩

/-- **One package.** -/
theorem parse_package_eq_ok {so_far next : PackagesRead} {line : Str}
    (hline : is_package_line line = true) : parse_package so_far line = .ok next ↔
      ∃ package : PackageReferenceV1, line = package_line package ∧
        (∀ prior ∈ so_far.previous, prior < package.package) ∧
        next = ⟨some package.package, so_far.source_keys ++ [package.source.digest],
          so_far.build_keys ++ [package.build.digest]⟩ := by
  constructor
  · intro h
    obtain ⟨f₁, f₂, f₃, f₄, f₅, hfields⟩ := is_package_line_fields hline
    unfold parse_package at h
    dsimp only at h
    rw [hfields] at h
    simp only [List.getD_cons_succ, List.getD_cons_zero] at h
    obtain ⟨scope, hscope, h⟩ := bind_eq_ok.mp h
    obtain ⟨name, hname, h⟩ := bind_eq_ok.mp h
    obtain ⟨package, hpackage, h⟩ := bind_eq_ok.mp h
    obtain ⟨⟨hprior⟩, -, h⟩ := bind_eq_ok.mp h
    obtain ⟨source, hsource, h⟩ := bind_eq_ok.mp h
    obtain ⟨build, hbuild, h⟩ := bind_eq_ok.mp h
    obtain ⟨artifact, hartifact, h⟩ := bind_eq_ok.mp h
    have hkey : package.scope = scope ∧ package.name = name := by
      have hnew := mapError_eq_ok.mp hpackage
      unfold PackageKeyV1.new at hnew
      obtain ⟨⟨_⟩, -, hnew⟩ := bind_eq_ok.mp hnew
      obtain ⟨⟨_⟩, -, hnew⟩ := bind_eq_ok.mp hnew
      rw [← Except.ok.inj hnew]
      exact ⟨rfl, rfl⟩
    have hwhole : line = tab_line (split '\t' line) := (List.intercalate_splitOn '\t').symm
    refine ⟨⟨package, ⟨source⟩, ⟨build⟩, artifact⟩, ?_, hprior, (Except.ok.inj h).symm⟩
    rw [hwhole, hfields, decode_hex_eq_ok.mp hscope, decode_hex_eq_ok.mp hname,
      reference_digest_eq_ok.mp hsource, reference_digest_eq_ok.mp hbuild,
      reference_digest_eq_ok.mp hartifact, ← hkey.1, ← hkey.2]
    rfl
  · rintro ⟨package, rfl, hprior, rfl⟩
    unfold parse_package
    dsimp only
    rw [split_package_line]
    simp only [List.getD_cons_succ, List.getD_cons_zero]
    refine bind_eq_ok.mpr ⟨_, decode_hex_eq_ok.mpr rfl, ?_⟩
    refine bind_eq_ok.mpr ⟨_, decode_hex_eq_ok.mpr rfl, ?_⟩
    refine bind_eq_ok.mpr ⟨package.package, mapError_eq_ok.mpr (PackageKeyV1.new_self _), ?_⟩
    refine bind_eq_ok.mpr ⟨_, ensure_ok hprior _, ?_⟩
    refine bind_eq_ok.mpr ⟨_, reference_digest_eq_ok.mpr rfl, ?_⟩
    refine bind_eq_ok.mpr ⟨_, reference_digest_eq_ok.mpr rfl, ?_⟩
    exact bind_eq_ok.mpr ⟨_, reference_digest_eq_ok.mpr rfl, rfl⟩

/-- **The packages.** The loop takes the lines of packages in strict order, each of them
after the last one before. -/
theorem parse_packages_eq_ok {so_far next : PackagesRead} {body : List Str}
    (hbody : body.all is_package_line = true) : body.foldlM parse_package so_far = .ok next ↔
      ∃ packages : List PackageReferenceV1, body = packages.map package_line ∧
        (packages.Pairwise fun left right => left.package < right.package) ∧
        (∀ prior ∈ so_far.previous, ∀ package ∈ packages, prior < package.package) ∧
        next = ⟨(packages.getLast?.map PackageReferenceV1.package).or so_far.previous,
          so_far.source_keys ++ packages.map fun package => package.source.digest,
          so_far.build_keys ++ packages.map fun package => package.build.digest⟩ := by
  induction body generalizing so_far with
  | nil =>
    rw [List.foldlM_nil]
    constructor
    · intro h
      rw [← Except.ok.inj h]
      refine ⟨[], rfl, List.Pairwise.nil, fun _ _ _ hmem => (List.not_mem_nil hmem).elim, ?_⟩
      rw [List.map_nil, List.append_nil, List.map_nil, List.append_nil]
      rfl
    · rintro ⟨packages, hpackages, -, -, rfl⟩
      rw [List.map_eq_nil_iff.mp hpackages.symm, List.map_nil, List.append_nil, List.map_nil,
        List.append_nil]
      rfl
  | cons line body ih =>
    rw [List.all_cons, Bool.and_eq_true] at hbody
    rw [List.foldlM_cons, bind_eq_ok]
    constructor
    · rintro ⟨middle, hone, hrest⟩
      obtain ⟨package, rfl, hprior, rfl⟩ := (parse_package_eq_ok hbody.1).mp hone
      obtain ⟨packages, rfl, hsorted, hafter, rfl⟩ := (ih hbody.2).mp hrest
      refine ⟨package :: packages, rfl, List.pairwise_cons.mpr ⟨hafter _ rfl, hsorted⟩, ?_, ?_⟩
      · intro prior hmem other hother
        obtain rfl | hother := List.mem_cons.mp hother
        · exact hprior prior hmem
        · exact (hprior prior hmem).trans (hafter _ rfl other hother)
      · rw [List.map_cons, List.map_cons, List.append_assoc, List.append_assoc]
        cases packages with
        | nil => rfl
        | cons => rfl
    · rintro ⟨packages, hpackages, hsorted, hafter, rfl⟩
      cases packages with
      | nil => cases hpackages
      | cons package packages =>
        obtain ⟨rfl, rfl⟩ := List.cons.inj hpackages
        obtain ⟨hfirst, hsorted⟩ := List.pairwise_cons.mp hsorted
        refine ⟨_, (parse_package_eq_ok hbody.1).mpr ⟨package, rfl, fun prior hprior =>
          hafter prior hprior package List.mem_cons_self, rfl⟩, ?_⟩
        refine (ih hbody.2).mpr ⟨packages, rfl, hsorted, ?_, ?_⟩
        · intro prior hprior other hother
          rw [← Option.some.inj hprior]
          exact hfirst other hother
        · rw [List.map_cons, List.map_cons, List.append_assoc, List.append_assoc]
          cases packages with
          | nil => rfl
          | cons => rfl

/-! ## The counts against the body -/

theorem add_usize_eq_ok {a b n : ℕ} : add_usize a b = .ok n ↔ n = a + b ∧ a + b < 2 ^ 64 := by
  unfold add_usize
  by_cases h : a + b < 2 ^ 64
  · rw [if_pos h]
    exact ⟨fun heq => ⟨(Except.ok.inj heq).symm, h⟩, fun heq => by rw [heq.1]⟩
  · rw [if_neg h]
    exact ⟨fun heq => (by cases heq), fun heq => absurd heq.2 h⟩

/-- The lines behind the head are as many as they are said to be and end with the footer. -/
def HeadRead.Framed (head : HeadRead) : Prop :=
  head.remaining.length = head.artifact_references + 1 ∧
    head.remaining.getLast? = some reference_footer

instance (head : HeadRead) : Decidable head.Framed := inferInstanceAs (Decidable (_ ∧ _))

/-- The checks add two counts that a word does not hold the sum of. -/
def HeadRead.Overflows (head : HeadRead) : Prop :=
  2 ^ 64 ≤ head.artifact_references + 1 ∨
    head.Framed ∧ 2 ^ 64 ≤ head.artifact_reuses + head.artifact_publications

/-- What the checks accept. -/
structure HeadRead.Accepted (head : HeadRead) : Prop where
  framed : head.Framed
  artifacts : head.artifact_reuses + head.artifact_publications = head.artifact_references
  hits : head.artifact_cache_hits ≤ head.artifact_reuses
  sources : head.artifact_references ≤ head.source_references
  lines : (head.remaining.take head.artifact_references).all is_package_line = true

theorem check_body_eq_ok {head : HeadRead} : check_body head = .ok () ↔
    head.Accepted ∧ head.artifact_references + 1 < 2 ^ 64 := by
  unfold check_body
  constructor
  · intro h
    obtain ⟨expected, hexpected, h⟩ := bind_eq_ok.mp h
    obtain ⟨⟨hframed⟩, -, h⟩ := bind_eq_ok.mp h
    obtain ⟨artifacts, hartifacts, h⟩ := bind_eq_ok.mp h
    obtain ⟨⟨hsum, hhits, hsources, hlines⟩, -, -⟩ := bind_eq_ok.mp h
    obtain ⟨rfl, hword⟩ := add_usize_eq_ok.mp hexpected
    obtain ⟨rfl, -⟩ := add_usize_eq_ok.mp hartifacts
    exact ⟨⟨hframed, hsum, hhits, hsources, hlines⟩, hword⟩
  · rintro ⟨haccepted, hword⟩
    have hsum := haccepted.artifacts
    refine bind_eq_ok.mpr ⟨_, add_usize_eq_ok.mpr ⟨rfl, hword⟩, ?_⟩
    refine bind_eq_ok.mpr ⟨_, ensure_ok haccepted.framed _, ?_⟩
    refine bind_eq_ok.mpr ⟨_, add_usize_eq_ok.mpr ⟨rfl, by omega⟩, ?_⟩
    exact bind_eq_ok.mpr ⟨_, ensure_ok ⟨hsum, haccepted.hits, haccepted.sources,
      haccepted.lines⟩ _, rfl⟩

theorem refused_ne_overflow (message : String) : refused message ≠ .overflow := by
  unfold refused
  simp

theorem ensure_ne_overflow {p : Prop} [Decidable p] {message : String} :
    ensure p (refused message) ≠ .error .overflow := fun h =>
  refused_ne_overflow message (ensure_eq_error.mp h).2

theorem add_usize_overflow {a b : ℕ} : add_usize a b = .error .overflow ↔ 2 ^ 64 ≤ a + b := by
  unfold add_usize
  by_cases h : a + b < 2 ^ 64
  · simp only [if_pos h, reduceCtorEq, false_iff]
    omega
  · simp only [if_neg h, true_iff]
    omega

theorem check_body_overflow {head : HeadRead} :
    check_body head = .error .overflow ↔ head.Overflows := by
  unfold check_body HeadRead.Overflows
  constructor
  · intro h
    obtain h | ⟨expected, hexpected, h⟩ := bind_eq_error.mp h
    · exact Or.inl (add_usize_overflow.mp h)
    obtain h | ⟨⟨hframed⟩, -, h⟩ := bind_eq_error.mp h
    · exact absurd h ensure_ne_overflow
    rw [(add_usize_eq_ok.mp hexpected).1] at hframed
    obtain h | ⟨artifacts, -, h⟩ := bind_eq_error.mp h
    · exact Or.inr ⟨hframed, add_usize_overflow.mp h⟩
    obtain h | ⟨-, -, h⟩ := bind_eq_error.mp h
    · exact absurd h ensure_ne_overflow
    · cases h
  · rintro (hword | ⟨hframed, hsum⟩)
    · exact bind_eq_error.mpr (Or.inl (add_usize_overflow.mpr hword))
    · by_cases hword : head.artifact_references + 1 < 2 ^ 64
      · refine bind_eq_error.mpr (Or.inr ⟨_, add_usize_eq_ok.mpr ⟨rfl, hword⟩, ?_⟩)
        refine bind_eq_error.mpr (Or.inr ⟨_, ensure_ok hframed _, ?_⟩)
        exact bind_eq_error.mpr (Or.inl (add_usize_overflow.mpr hsum))
      · exact bind_eq_error.mpr (Or.inl (add_usize_overflow.mpr (by omega)))

/-- Lines with a footer behind them are the lines in front of it and the footer. -/
theorem HeadRead.Framed.remaining_eq {head : HeadRead} (h : head.Framed) :
    head.remaining = head.remaining.take head.artifact_references ++ [reference_footer] := by
  obtain ⟨hlength, hlast⟩ := h
  have hdrop := List.dropLast_append_getLast? reference_footer hlast
  rw [List.dropLast_eq_take, hlength, Nat.add_sub_cancel] at hdrop
  exact hdrop.symm

/-! ## What is read -/

/-- The head and the body of a report's record. -/
def GenerationReferenceReportV1.head (report : GenerationReferenceReportV1) : HeadRead where
  source_references := report.source_references
  artifact_references := report.packages.length
  artifact_cache_hits := report.artifact_cache_hits
  artifact_publications := report.artifact_publications
  artifact_reuses := report.artifact_reuses
  remaining := report.packages.map package_line ++ [reference_footer]

/-- The text has the lines of a report's record, with its counts in some spelling. -/
structure Spells (text : Str) (report : GenerationReferenceReportV1) (values : CountTexts) :
    Prop where
  lines : Lib.lines text = record_lines_of report values
  counts : values.Spell report.head

theorem take_packages (report : GenerationReferenceReportV1) :
    report.head.remaining.take report.head.artifact_references =
      report.packages.map package_line :=
  List.take_left' (List.length_map ..)

theorem GenerationReferenceReportV1.Consistent.accepted {report : GenerationReferenceReportV1}
    (h : report.Consistent) : report.head.Accepted where
  framed := by
    unfold GenerationReferenceReportV1.head HeadRead.Framed
    simp
  artifacts := h.artifacts
  hits := h.hits
  sources := h.sources
  lines := by
    rw [take_packages, List.all_map, List.all_eq_true]
    exact fun package _ => is_package_line_package_line package

/-- **What is read.** Every spelling of the record of a consistent and sorted report, and
nothing else. -/
theorem parse_summary_eq_ok {bytes : List UInt8} {generation : Sha256}
    {s : GenerationReferenceSummaryV1} : parse_summary bytes generation = .ok s ↔
      ∃ text report values, bytes = as_bytes text ∧ Spells text report values ∧
        report.generation = generation ∧ report.Consistent ∧ report.Sorted ∧
        report.packages.length + 1 < 2 ^ 64 ∧ s = report.summary := by
  unfold parse_summary
  constructor
  · intro h
    split at h
    · cases h
    next text htext =>
    obtain ⟨head, hhead, h⟩ := bind_eq_ok.mp h
    obtain ⟨⟨⟩, hbody, h⟩ := bind_eq_ok.mp h
    obtain ⟨read, hread, h⟩ := bind_eq_ok.mp h
    obtain ⟨values, hlines, hvalues⟩ := parse_head_eq_ok.mp hhead
    obtain ⟨haccepted, hword⟩ := check_body_eq_ok.mp hbody
    obtain ⟨packages, hpackages, hsorted, -, rfl⟩ := (parse_packages_eq_ok haccepted.lines).mp hread
    have hlength : packages.length = head.artifact_references := by
      have hframed := haccepted.framed.1
      rw [← List.length_map package_line, ← hpackages, List.length_take, hframed]
      omega
    have hremaining := haccepted.framed.remaining_eq
    rw [hpackages] at hremaining
    refine ⟨text, ⟨generation, head.source_references, head.artifact_cache_hits,
      head.artifact_publications, head.artifact_reuses, packages,
      usize_from_str_lt hvalues.source_references, usize_from_str_lt hvalues.artifact_cache_hits,
      usize_from_str_lt hvalues.artifact_publications, usize_from_str_lt hvalues.artifact_reuses,
      by omega⟩, values, from_utf8_eq_some.mp htext, ⟨?_, ?_⟩, rfl, ⟨?_, ?_, haccepted.hits⟩,
      hsorted, by rw [hlength]; exact hword, ?_⟩
    · rw [hlines, hremaining]
      rfl
    · refine ⟨hvalues.source_references, ?_, hvalues.artifact_cache_hits,
        hvalues.artifact_publications, hvalues.artifact_reuses⟩
      rw [hvalues.artifact_references, ← hlength]
      rfl
    · show packages.length ≤ head.source_references
      rw [hlength]
      exact haccepted.sources
    · show head.artifact_reuses + head.artifact_publications = packages.length
      rw [hlength]
      exact haccepted.artifacts
    · rw [← Except.ok.inj h, ← hlength]
      rfl
  · rintro ⟨text, report, values, rfl, hspells, rfl, hconsistent, hsorted, hword, rfl⟩
    have haccepted := hconsistent.accepted
    rw [from_utf8_as_bytes]
    refine bind_eq_ok.mpr ⟨report.head, parse_head_eq_ok.mpr ⟨values, hspells.lines,
      hspells.counts⟩, ?_⟩
    refine bind_eq_ok.mpr ⟨(), check_body_eq_ok.mpr ⟨haccepted, hword⟩, ?_⟩
    refine bind_eq_ok.mpr ⟨_, (parse_packages_eq_ok haccepted.lines).mpr
      ⟨report.packages, take_packages report, hsorted, fun prior hprior => (by cases hprior), rfl⟩,
      ?_⟩
    rw [List.nil_append, List.nil_append]
    rfl

/-! ## What overflows -/

theorem reference_field_ne_overflow {expected : String} {ls : List Str} :
    reference_field expected ls ≠ .error .overflow := by
  unfold reference_field
  cases ls with
  | nil => simp [refused]
  | cons line rest =>
    dsimp only
    split
    · simp [refused]
    · split
      · simp [refused]
      · simp

theorem count_field_ne_overflow {expected : String} {ls : List Str} :
    count_field expected ls ≠ .error .overflow := by
  intro h
  obtain h | ⟨⟨value, rest⟩, -, h⟩ := bind_eq_error.mp h
  · exact reference_field_ne_overflow h
  obtain h | ⟨n, -, h⟩ := bind_eq_error.mp h
  · unfold number at h
    split at h
    · exact refused_ne_overflow _ (Except.error.inj h)
    · cases h
  · cases h

theorem parse_head_ne_overflow {generation : Sha256} {ls : List Str} :
    parse_head generation ls ≠ .error .overflow := by
  intro h
  cases ls with
  | nil => exact refused_ne_overflow _ (Except.error.inj h)
  | cons header ls =>
    unfold parse_head at h
    obtain h | ⟨_, -, h⟩ := bind_eq_error.mp h
    · exact ensure_ne_overflow h
    obtain h | ⟨_, -, h⟩ := bind_eq_error.mp h
    · exact reference_field_ne_overflow h
    obtain h | ⟨_, -, h⟩ := bind_eq_error.mp h
    · exact ensure_ne_overflow h
    obtain h | ⟨_, -, h⟩ := bind_eq_error.mp h
    · exact count_field_ne_overflow h
    obtain h | ⟨_, -, h⟩ := bind_eq_error.mp h
    · exact count_field_ne_overflow h
    obtain h | ⟨_, -, h⟩ := bind_eq_error.mp h
    · exact count_field_ne_overflow h
    obtain h | ⟨_, -, h⟩ := bind_eq_error.mp h
    · exact count_field_ne_overflow h
    obtain h | ⟨_, -, h⟩ := bind_eq_error.mp h
    · exact count_field_ne_overflow h
    · cases h

theorem decode_hex_ne_overflow {value : Str} : decode_hex value ≠ .error .overflow := by
  intro h
  obtain h | ⟨_, -, h⟩ := bind_eq_error.mp h
  · exact ensure_ne_overflow h
  obtain h | ⟨_, -, h⟩ := bind_eq_error.mp h
  · exact ensure_ne_overflow h
  split at h
  · exact refused_ne_overflow _ (Except.error.inj h)
  · cases h

theorem reference_digest_ne_overflow {message : String} {value : Str} :
    reference_digest message value ≠ .error .overflow := by
  unfold reference_digest
  intro h
  split at h
  · exact refused_ne_overflow _ (Except.error.inj h)
  · cases h

theorem parse_package_ne_overflow {so_far : PackagesRead} {line : Str} :
    parse_package so_far line ≠ .error .overflow := by
  intro h
  obtain h | ⟨scope, -, h⟩ := bind_eq_error.mp h
  · exact decode_hex_ne_overflow h
  obtain h | ⟨name, -, h⟩ := bind_eq_error.mp h
  · exact decode_hex_ne_overflow h
  obtain h | ⟨package, -, h⟩ := bind_eq_error.mp h
  · cases hnew : PackageKeyV1.new scope name with
    | error e =>
      rw [hnew] at h
      exact refused_ne_overflow _ (Except.error.inj h)
    | ok key =>
      rw [hnew] at h
      cases h
  obtain h | ⟨_, -, h⟩ := bind_eq_error.mp h
  · exact ensure_ne_overflow h
  obtain h | ⟨_, -, h⟩ := bind_eq_error.mp h
  · exact reference_digest_ne_overflow h
  obtain h | ⟨_, -, h⟩ := bind_eq_error.mp h
  · exact reference_digest_ne_overflow h
  obtain h | ⟨_, -, h⟩ := bind_eq_error.mp h
  · exact reference_digest_ne_overflow h
  · cases h

theorem parse_packages_ne_overflow {body : List Str} {so_far : PackagesRead} :
    body.foldlM parse_package so_far ≠ .error .overflow := by
  induction body generalizing so_far with
  | nil => exact fun h => (by cases h)
  | cons line body ih =>
    rw [List.foldlM_cons]
    intro h
    obtain h | ⟨next, -, h⟩ := bind_eq_error.mp h
    · exact parse_package_ne_overflow h
    · exact ih h

/-- The head of the record can be read, and the checks of its counts overflow. -/
def CountsOverflow (bytes : List UInt8) (generation : Sha256) : Prop :=
  ∃ text head values, bytes = as_bytes text ∧
    lines text = head_lines generation values ++ head.remaining ∧ values.Spell head ∧
    head.Overflows

/-- **What overflows.** -/
theorem parse_summary_overflow {bytes : List UInt8} {generation : Sha256} :
    parse_summary bytes generation = .error .overflow ↔ CountsOverflow bytes generation := by
  unfold parse_summary CountsOverflow
  constructor
  · intro h
    split at h
    · exact absurd (Except.error.inj h) (refused_ne_overflow _)
    next text htext =>
    obtain h | ⟨head, hhead, h⟩ := bind_eq_error.mp h
    · exact absurd h parse_head_ne_overflow
    obtain h | ⟨_, -, h⟩ := bind_eq_error.mp h
    · obtain ⟨values, hlines, hvalues⟩ := parse_head_eq_ok.mp hhead
      exact ⟨text, head, values, from_utf8_eq_some.mp htext, hlines, hvalues,
        check_body_overflow.mp h⟩
    obtain h | ⟨_, -, h⟩ := bind_eq_error.mp h
    · exact absurd h parse_packages_ne_overflow
    · cases h
  · rintro ⟨text, head, values, rfl, hlines, hvalues, hoverflows⟩
    rw [from_utf8_as_bytes]
    refine bind_eq_error.mpr (Or.inr ⟨head, parse_head_eq_ok.mpr ⟨values, hlines, hvalues⟩, ?_⟩)
    exact bind_eq_error.mpr (Or.inl (check_body_overflow.mpr hoverflows))

/-! ## What was written -/

theorem decimals_spell (report : GenerationReferenceReportV1) :
    report.decimals.Spell report.head where
  source_references := usize_from_str_decimal report.words.1
  artifact_references := usize_from_str_decimal report.words.2.2.2.2
  artifact_cache_hits := usize_from_str_decimal report.words.2.1
  artifact_publications := usize_from_str_decimal report.words.2.2.1
  artifact_reuses := usize_from_str_decimal report.words.2.2.2.1

/-- Counts in canonical spelling are spelled as the writer does. -/
theorem CountTexts.Spell.eq_decimals {report : GenerationReferenceReportV1} {values : CountTexts}
    (h : values.Spell report.head) (hcanonical : ∀ v ∈ values.all, is_canonical_decimal v = true) :
    values = report.decimals := by
  unfold CountTexts.all at hcanonical
  simp only [List.forall_mem_cons] at hcanonical
  obtain ⟨h₁, h₂, h₃, h₄, h₅, -⟩ := hcanonical
  have e₁ := usize_from_str_canonical h.source_references h₁
  have e₂ := usize_from_str_canonical h.artifact_references h₂
  have e₃ := usize_from_str_canonical h.artifact_cache_hits h₃
  have e₄ := usize_from_str_canonical h.artifact_publications h₄
  have e₅ := usize_from_str_canonical h.artifact_reuses h₅
  cases values
  dsimp only at e₁ e₂ e₃ e₄ e₅
  rw [e₁, e₂, e₃, e₄, e₅]
  rfl

theorem record_lines_plain (report : GenerationReferenceReportV1) :
    ∀ line ∈ record_lines_of report report.decimals, '\n' ∉ line ∧ '\r' ∉ line := by
  have hfield : ∀ (name : String) {value : Str}, '\n' ∉ name.toList → '\r' ∉ name.toList →
      IsToken value → '\n' ∉ field_line name.toList value ∧ '\r' ∉ field_line name.toList value := by
    intro name value hlf hcr hvalue
    unfold field_line
    simp only [List.mem_append, List.mem_cons, not_or]
    exact ⟨⟨hlf, by decide, hvalue.not_mem (by decide)⟩,
      hcr, by decide, hvalue.not_mem (by decide)⟩
  intro line hline
  unfold record_lines_of head_lines at hline
  simp only [List.mem_append, List.mem_cons, List.not_mem_nil, or_false, List.mem_map] at hline
  rcases hline with (rfl | rfl | rfl | rfl | rfl | rfl | rfl) | ⟨package, -, rfl⟩ | rfl
  · decide
  · exact hfield "generation" (by decide) (by decide) (Sha256.to_string_token _)
  · exact hfield "source-references" (by decide) (by decide) (decimal_token _)
  · exact hfield "artifact-references" (by decide) (by decide) (decimal_token _)
  · exact hfield "artifact-cache-hits" (by decide) (by decide) (decimal_token _)
  · exact hfield "artifact-publications" (by decide) (by decide) (decimal_token _)
  · exact hfield "artifact-reuses" (by decide) (by decide) (decimal_token _)
  · exact package_line_plain package
  · decide

theorem lines_encode (report : GenerationReferenceReportV1) :
    lines (encode report) = record_lines_of report report.decimals :=
  lines_unlines _ (record_lines_plain report)

theorem encode_spells (report : GenerationReferenceReportV1) :
    Spells (encode report) report report.decimals :=
  ⟨lines_encode report, decimals_spell report⟩

/-- The lines of a head show the texts of its counts. -/
theorem head_lines_injective {g₁ g₂ : Sha256} {v₁ v₂ : CountTexts} {ls₁ ls₂ : List Str}
    (h : head_lines g₁ v₁ ++ ls₁ = head_lines g₂ v₂ ++ ls₂) : v₁ = v₂ := by
  unfold head_lines field_line at h
  simp only [List.cons_append, List.nil_append, List.cons.injEq, List.append_cancel_left_eq,
    true_and] at h
  obtain ⟨-, h₁, h₂, h₃, h₄, h₅, -⟩ := h
  cases v₁
  cases v₂
  dsimp only at h₁ h₂ h₃ h₄ h₅
  rw [h₁, h₂, h₃, h₄, h₅]

/-! ## When the reader is exact -/

/-- The bytes are what the writer makes of a report for the generation, and these are its
counts and keys. -/
def Written (bytes : List UInt8) (generation : Sha256) (s : GenerationReferenceSummaryV1) : Prop :=
  ∃ report : GenerationReferenceReportV1, bytes = as_bytes (encode report) ∧
    report.generation = generation ∧ report.Consistent ∧ report.Sorted ∧ s = report.summary

/-- The reader takes what was written and nothing else, and none of its sums overflows. -/
structure ReadsExactly (bytes : List UInt8) (generation : Sha256) : Prop where
  exact : ∀ s, parse_summary bytes generation = .ok s ↔ Written bytes generation s
  fits : parse_summary bytes generation ≠ .error .overflow

/-- The bytes have the lines of a record, but a line does not end with one line feed or a
count is not in plain decimal. -/
def Respelled (bytes : List UInt8) (generation : Sha256) : Prop :=
  ∃ text report values, bytes = as_bytes text ∧ Spells text report values ∧
    report.generation = generation ∧ report.Consistent ∧ report.Sorted ∧
    (text ≠ unlines (lines text) ∨ ∃ v ∈ values.all, is_canonical_decimal v = false)

/-- A record that cannot be counted overflows. -/
theorem CountsOverflow.of_written {text : Str} {report : GenerationReferenceReportV1}
    {values : CountTexts} (h : Spells text report values)
    (hlength : 2 ^ 64 ≤ report.packages.length + 1) :
    CountsOverflow (as_bytes text) report.generation :=
  ⟨text, report.head, values, rfl, h.lines, h.counts, Or.inl hlength⟩

theorem decimals_canonical (report : GenerationReferenceReportV1) :
    ∀ v ∈ report.decimals.all, is_canonical_decimal v = true := by
  unfold CountTexts.all GenerationReferenceReportV1.decimals
  simp only [List.forall_mem_cons, decimal_canonical, true_and]
  exact fun v hv => (List.not_mem_nil hv).elim

/-- Another spelling is read all the same. -/
theorem Respelled.not_reads_exactly {bytes : List UInt8} {generation : Sha256}
    (h : Respelled bytes generation) : ¬ReadsExactly bytes generation := by
  obtain ⟨text, report, values, rfl, hspells, rfl, hconsistent, hsorted, hother⟩ := h
  intro hexact
  have hword : report.packages.length + 1 < 2 ^ 64 := by
    by_contra hlarge
    exact hexact.fits (parse_summary_overflow.mpr (.of_written hspells (by omega)))
  have hread := parse_summary_eq_ok.mpr ⟨text, report, values, rfl, hspells, rfl, hconsistent,
    hsorted, hword, rfl⟩
  obtain ⟨written, hbytes, -⟩ := (hexact.exact _).mp hread
  have htext := as_bytes_injective hbytes
  have hlines : lines text = record_lines_of written written.decimals := by
    rw [htext, lines_encode]
  rcases hother with hother | ⟨v, hv, hcount⟩
  · apply hother
    rw [hlines, htext]
    rfl
  · have hvalues : values = written.decimals := head_lines_injective (hspells.lines.symm.trans hlines)
    rw [decimals_canonical written v (hvalues ▸ hv)] at hcount
    cases hcount

/-- **Exact reading.** The reader is exact on all bytes but those that are a record in
another spelling and those whose counts it cannot add. -/
theorem summary_reads_exactly_iff (bytes : List UInt8) (generation : Sha256) :
    ReadsExactly bytes generation ↔
      ¬Respelled bytes generation ∧ ¬CountsOverflow bytes generation := by
  constructor
  · intro hexact
    refine ⟨fun hother => hother.not_reads_exactly hexact, fun hoverflow => ?_⟩
    exact hexact.fits (parse_summary_overflow.mpr hoverflow)
  · rintro ⟨hplain, hcounts⟩
    refine ⟨fun s => ⟨fun hread => ?_, ?_⟩, fun h => hcounts (parse_summary_overflow.mp h)⟩
    · obtain ⟨text, report, values, rfl, hspells, rfl, hconsistent, hsorted, -, rfl⟩ :=
        parse_summary_eq_ok.mp hread
      have htext : text = unlines (lines text) := by
        by_contra hother
        exact hplain ⟨text, report, values, rfl, hspells, rfl, hconsistent, hsorted, Or.inl hother⟩
      have hcanonical : ∀ v ∈ values.all, is_canonical_decimal v = true := by
        intro v hv
        by_contra hcount
        exact hplain ⟨text, report, values, rfl, hspells, rfl, hconsistent, hsorted,
          Or.inr ⟨v, hv, Bool.eq_false_iff.mpr hcount⟩⟩
      refine ⟨report, ?_, rfl, hconsistent, hsorted, rfl⟩
      rw [htext, hspells.lines, hspells.counts.eq_decimals hcanonical]
      rfl
    · rintro ⟨report, rfl, rfl, hconsistent, hsorted, rfl⟩
      refine parse_summary_eq_ok.mpr ⟨encode report, report, report.decimals, rfl,
        encode_spells report, rfl, hconsistent, hsorted, ?_, rfl⟩
      by_contra hlarge
      exact hcounts (.of_written (encode_spells report) (by omega))

/-- A report without packages, and its counts with a sign and a leading zero. -/
def empty_report : GenerationReferenceReportV1 :=
  ⟨Sha256.repeated 0, 0, 0, 0, 0, [], by decide⟩

def signed_counts : CountTexts :=
  ⟨"+0".toList, "00".toList, "0".toList, "0".toList, "0".toList⟩

/-- The record with a sign, a leading zero, carriage returns and no last line feed. -/
def signed_record : Str :=
  List.intercalate "\r\n".toList (record_lines_of empty_report signed_counts)

/-- The record is read although it is not written so. -/
theorem signed_record_read :
    parse_summary (as_bytes signed_record) empty_report.generation = .ok empty_report.summary ∧
      ¬ReadsExactly (as_bytes signed_record) empty_report.generation := by
  have hspells : Spells signed_record empty_report signed_counts :=
    ⟨by decide +kernel, by decide, by decide, by decide, by decide, by decide⟩
  have hconsistent : empty_report.Consistent := ⟨by decide, by decide, by decide⟩
  refine ⟨parse_summary_eq_ok.mpr ⟨_, _, _, rfl, hspells, rfl, hconsistent, List.Pairwise.nil,
    by decide, rfl⟩, Respelled.not_reads_exactly ⟨_, _, _, rfl, hspells, rfl, hconsistent,
    List.Pairwise.nil, Or.inr ⟨"+0".toList, List.mem_cons_self, by decide⟩⟩⟩

end LeanBun.Managed
