/-
Candidates for a reuse.

A stored record is a candidate when it is the completed record of a build that Lake ran to
its end, for the same project, image and target under the same evidence. Of several the one
that finished last is selected. Its recorded trees are then compared with those that the
project has now.
-/
import LeanBun.Execution.Store
import LeanBun.Lib.Sorted

set_option autoImplicit false

namespace LeanBun.Reuse

open LeanBun.Lib LeanBun.Core LeanBun.Execution

/-! ## The selection -/

/-- The second argument of `successfulCandidate`. -/
structure ReuseIdentity where
  projectId : JsString
  projectPath : JsString
  imageId : JsString
  target : JsString
  bindingSha256 : JsString
  attestationSha256 : JsString
deriving DecidableEq

/-- The identity that a record is of. -/
def reuse_identity (record : ControlledBuildExecutionRecordV1) : ReuseIdentity :=
  ⟨record.projectId, record.projectPath, record.imageId, record.target, record.bindingSha256,
    record.attestationSha256⟩

/-- What `successfulCandidate` asks of an outcome. -/
def successful_outcome (outcome : ControlledBuildExecutionOutcomeV1) : Bool :=
  decide (outcome.buildExecution = .completed) && decide (outcome.lakeExitCode = some 0) &&
  decide (outcome.projectProtectedRecordsStable = some true) &&
  decide (outcome.bindingStable = some true) && decide (outcome.attestationStable = some true) &&
  decide (outcome.inspectionStable = some true) &&
  decide (outcome.terminationReason = some .exit) &&
  decide (outcome.processGroupReaped = some true) && outcome.reuseEvidence.isSome

/-- `successfulCandidate`. -/
def successfulCandidate (stored : StoredExecutionRecord) (identity : ReuseIdentity) : Bool :=
  let record := stored.document
  decide (record.status = .terminal .completed) &&
  decide (record.projectId = identity.projectId) &&
  decide (record.projectPath = identity.projectPath) &&
  decide (record.imageId = identity.imageId) && decide (record.target = identity.target) &&
  decide (record.bindingSha256 = identity.bindingSha256) &&
  decide (record.attestationSha256 = identity.attestationSha256) &&
  record.outcome.any successful_outcome

section Selection

-- `Date.parse`, where it gives a finite number, and the sort key of a collation.
variable (date_parse : JsString → Option ℤ) (collation_key : JsString → List ℕ)

/-- `Date.parse(record.finishedAt!)`; a terminal record that is valid has such a time. -/
def finish_time (record : ControlledBuildExecutionRecordV1) : ℤ :=
  (record.finishedAt.bind date_parse).getD 0

/-- `localeCompare`, which compares the sort keys of the two strings. -/
def localeCompare (a b : JsString) : ℤ :=
  if collation_key a < collation_key b then -1
  else if collation_key b < collation_key a then 1 else 0

/-- The comparison of `selectReuseCandidate`. -/
def compare_candidates (left right : StoredExecutionRecord) : ℤ :=
  let time := finish_time date_parse right.document - finish_time date_parse left.document
  if time = 0 then
    localeCompare collation_key right.document.executionId left.document.executionId
  else time

/-- `selectReuseCandidate`. -/
def selectReuseCandidate (records : List StoredExecutionRecord) (identity : ReuseIdentity) :
    Option StoredExecutionRecord :=
  ((records.filter fun record => successfulCandidate record identity).insertionSort
    fun left right => compare_candidates date_parse collation_key left right ≤ 0).head?

end Selection

/-! ## The trees -/

/-- `CanonicalTreeHash`. -/
structure CanonicalTreeHash where
  schema : JsString
  treeHash : JsString
  entryCount : ℤ
  fileCount : ℤ
  byteCount : ℤ
  missingRoots : List JsString

/-- `TreeComparison`. -/
structure TreeComparison where
  expectedHash : JsString
  observedHash : JsString
  expectedEntryCount : ℤ
  observedEntryCount : ℤ
  expectedFileCount : ℤ
  observedFileCount : ℤ
  expectedByteCount : ℤ
  observedByteCount : ℤ
  tree_matches : Bool
deriving DecidableEq

/-- `compareReuseTree`. The schema of a recorded tree goes with its place in the evidence. -/
def compareReuseTree (schema : JsString) (expected : ReuseTreeEvidenceV1)
    (observed : CanonicalTreeHash) : TreeComparison where
  expectedHash := expected.treeHash
  observedHash := observed.treeHash
  expectedEntryCount := expected.entryCount
  observedEntryCount := observed.entryCount
  expectedFileCount := expected.fileCount
  observedFileCount := observed.fileCount
  expectedByteCount := expected.byteCount
  observedByteCount := observed.byteCount
  tree_matches := decide (schema = observed.schema) &&
    decide (expected.treeHash = observed.treeHash) &&
    decide (expected.entryCount = observed.entryCount) &&
    decide (expected.fileCount = observed.fileCount) &&
    decide (expected.byteCount = observed.byteCount) && observed.missingRoots.isEmpty

/-- The recorded evidence of a tree is that of the tree. -/
def SameTree (expected : ReuseTreeEvidenceV1) (observed : CanonicalTreeHash) : Prop :=
  expected = ⟨observed.treeHash, observed.entryCount, observed.fileCount, observed.byteCount⟩

theorem same_tree_of_matches {schema : JsString} {expected : ReuseTreeEvidenceV1}
    {observed : CanonicalTreeHash}
    (h : (compareReuseTree schema expected observed).tree_matches = true) :
    SameTree expected observed := by
  unfold compareReuseTree at h
  simp only [Bool.and_eq_true, decide_eq_true_iff] at h
  obtain ⟨⟨⟨⟨⟨-, hhash⟩, hentries⟩, hfiles⟩, hbytes⟩, -⟩ := h
  unfold SameTree
  rw [← hhash, ← hentries, ← hfiles, ← hbytes]

/-! ## What is selected -/

/-- The record of a build that Lake ran to its end. -/
structure ActualRun (record : ControlledBuildExecutionRecordV1)
    (evidence : ProjectBuildReuseEvidenceV1) : Prop where
  status : record.status = .terminal .completed
  lake : ∃ outcome, record.outcome = some outcome ∧ outcome.buildExecution = .completed ∧
    outcome.lakeExitCode = some 0 ∧ outcome.terminationReason = some .exit ∧
    outcome.reuseEvidence = some evidence

theorem successful_candidate_run {stored : StoredExecutionRecord} {identity : ReuseIdentity}
    (h : successfulCandidate stored identity = true) :
    reuse_identity stored.document = identity ∧ ∃ evidence, ActualRun stored.document evidence := by
  unfold successfulCandidate at h
  simp only [Bool.and_eq_true, decide_eq_true_iff, Option.any_eq_true] at h
  obtain ⟨⟨⟨⟨⟨⟨⟨hstatus, hproject⟩, hpath⟩, himage⟩, htarget⟩, hbinding⟩, hattestation⟩,
    outcome, houtcome, hsuccess⟩ := h
  unfold successful_outcome at hsuccess
  simp only [Bool.and_eq_true, decide_eq_true_iff] at hsuccess
  obtain ⟨⟨⟨⟨⟨⟨⟨⟨hexecution, hexit⟩, -⟩, -⟩, -⟩, -⟩, hreason⟩, -⟩, hevidence⟩ := hsuccess
  refine ⟨?_, ?_⟩
  · unfold reuse_identity
    rw [hproject, hpath, himage, htarget, hbinding, hattestation]
  · obtain ⟨evidence, hevidence⟩ := Option.isSome_iff_exists.mp hevidence
    exact ⟨evidence, hstatus, outcome, houtcome, hexecution, hexit, hreason, hevidence⟩

/-- A completed record without an end run by Lake is no candidate; neither is any other. -/
theorem not_candidate {stored : StoredExecutionRecord}
    (h : stored.document.status ≠ .terminal .completed) (identity : ReuseIdentity) :
    successfulCandidate stored identity = false := by
  by_contra hcandidate
  obtain ⟨-, _, hrun⟩ := successful_candidate_run (Bool.not_eq_false _ ▸ hcandidate)
  exact h hrun.status

section Selected

variable {date_parse : JsString → Option ℤ} {collation_key : JsString → List ℕ}

/-- The comparison is one of pairs of a time and a sort key. -/
theorem compare_candidates_iff {left right : StoredExecutionRecord} :
    compare_candidates date_parse collation_key left right ≤ 0 ↔
      finish_time date_parse right.document < finish_time date_parse left.document ∨
        finish_time date_parse right.document = finish_time date_parse left.document ∧
          collation_key right.document.executionId ≤ collation_key left.document.executionId := by
  unfold compare_candidates localeCompare
  dsimp only
  by_cases htime :
      finish_time date_parse right.document - finish_time date_parse left.document = 0
  · rw [if_pos htime]
    have hsame : finish_time date_parse right.document = finish_time date_parse left.document := by
      omega
    rcases lt_trichotomy (collation_key right.document.executionId)
      (collation_key left.document.executionId) with hlt | heq | hgt
    · rw [if_pos hlt]
      exact ⟨fun _ => Or.inr ⟨hsame, hlt.le⟩, fun _ => by omega⟩
    · rw [if_neg heq.not_lt, if_neg heq.symm.not_lt]
      exact ⟨fun _ => Or.inr ⟨hsame, heq.le⟩, fun _ => le_refl 0⟩
    · rw [if_neg hgt.not_gt, if_pos hgt]
      refine ⟨fun h => absurd h (by omega), fun h => ?_⟩
      rcases h with h | ⟨-, h⟩
      · omega
      · exact absurd hgt h.not_gt
  · rw [if_neg htime]
    constructor
    · intro h
      exact Or.inl (by omega)
    · rintro (h | ⟨h, -⟩) <;> omega

theorem compare_candidates_total (a b : StoredExecutionRecord) :
    compare_candidates date_parse collation_key a b ≤ 0 ∨
      compare_candidates date_parse collation_key b a ≤ 0 := by
  rw [compare_candidates_iff, compare_candidates_iff]
  rcases lt_trichotomy (finish_time date_parse b.document) (finish_time date_parse a.document) with
    h | h | h
  · exact Or.inl (Or.inl h)
  · rcases le_total (collation_key b.document.executionId)
      (collation_key a.document.executionId) with hle | hle
    · exact Or.inl (Or.inr ⟨h, hle⟩)
    · exact Or.inr (Or.inr ⟨h.symm, hle⟩)
  · exact Or.inr (Or.inl h)

theorem compare_candidates_trans {a b c : StoredExecutionRecord}
    (hab : compare_candidates date_parse collation_key a b ≤ 0)
    (hbc : compare_candidates date_parse collation_key b c ≤ 0) :
    compare_candidates date_parse collation_key a c ≤ 0 := by
  rw [compare_candidates_iff] at *
  rcases hab with hab | ⟨hab, hkey⟩ <;> rcases hbc with hbc | ⟨hbc, hkey'⟩
  · exact Or.inl (hbc.trans hab)
  · exact Or.inl (hbc ▸ hab)
  · exact Or.inl (hab ▸ hbc)
  · exact Or.inr ⟨hbc.trans hab, hkey'.trans hkey⟩

/-- **The selection.** What is selected is a candidate, and none of the candidates finished
after it. -/
theorem selected_latest {records : List StoredExecutionRecord} {identity : ReuseIdentity}
    {selected : StoredExecutionRecord}
    (h : selectReuseCandidate date_parse collation_key records identity = some selected) :
    selected ∈ records ∧ successfulCandidate selected identity = true ∧
      ∀ other ∈ records, successfulCandidate other identity = true →
        finish_time date_parse other.document ≤ finish_time date_parse selected.document := by
  unfold selectReuseCandidate at h
  have hperm := List.perm_insertionSort (fun left right =>
    compare_candidates date_parse collation_key left right ≤ 0)
    (records.filter fun record => successfulCandidate record identity)
  obtain ⟨rest, hsorted⟩ := List.head?_eq_some_iff.mp h
  have hmem : ∀ other, other ∈ selected :: rest ↔
      other ∈ records ∧ successfulCandidate other identity = true := by
    intro other
    rw [← hsorted, hperm.mem_iff, List.mem_filter]
  obtain ⟨hselected, hcandidate⟩ := (hmem selected).mp List.mem_cons_self
  refine ⟨hselected, hcandidate, fun other hother hsuccess => ?_⟩
  rcases List.mem_cons.mp ((hmem other).mpr ⟨hother, hsuccess⟩) with rfl | hrest
  · exact le_refl _
  · have : Std.Total fun left right : StoredExecutionRecord =>
        compare_candidates date_parse collation_key left right ≤ 0 := ⟨compare_candidates_total⟩
    have : IsTrans StoredExecutionRecord fun left right =>
        compare_candidates date_parse collation_key left right ≤ 0 :=
      ⟨fun _ _ _ => compare_candidates_trans⟩
    have hpairwise := List.pairwise_insertionSort (fun left right : StoredExecutionRecord =>
      compare_candidates date_parse collation_key left right ≤ 0)
      (records.filter fun record => successfulCandidate record identity)
    rw [hsorted, List.pairwise_cons] at hpairwise
    rcases compare_candidates_iff.mp (hpairwise.1 other hrest) with hlt | ⟨heq, -⟩
    · exact hlt.le
    · exact heq.le

end Selected

end LeanBun.Reuse
