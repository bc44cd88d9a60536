/-
The identifiers of the core crate: projects and executions.

A project is the digest of its canonical path. An execution is a lowercase
version 4 UUID, kept as its thirty-six characters.
-/
import LeanBun.Core.Sha256

set_option autoImplicit false

namespace LeanBun.Core

open LeanBun.Lib

/-! ## Projects -/

/-- `ProjectId`. -/
structure ProjectId where
  digest : Sha256
deriving DecidableEq

/-- `impl Display for ProjectId`. -/
def ProjectId.to_string (id : ProjectId) : Str := id.digest.to_string

/-- `ProjectId::parse`. -/
def ProjectId.parse (value : Str) : Option ProjectId := (Sha256.parse value).map ProjectId.mk

@[simp] theorem ProjectId.parse_to_string (id : ProjectId) :
    ProjectId.parse id.to_string = some id := by
  unfold ProjectId.parse ProjectId.to_string
  rw [Sha256.parse_to_string]
  rfl

/-- `project_id`. -/
def project_id (canonical_path : Str) : ProjectId :=
  ⟨digest (as_bytes "leanbun-project-v1\x00".toList ++ as_bytes canonical_path)⟩

/-! ## Executions -/

/-- What `ExecutionId::parse` accepts. The source looks at the bytes; a character
that takes more than one of them is refused either way. -/
def valid_execution_id (value : Str) : Bool :=
  decide (value.length = 36) &&
    (value.zipIdx.all fun (c, index) =>
      if index ∈ [8, 13, 18, 23] then decide (c = '-') else is_lower_hex c) &&
    decide (value[14]? = some '4') &&
    decide (value[19]? = some '8' ∨ value[19]? = some '9' ∨ value[19]? = some 'a' ∨
      value[19]? = some 'b')

/-- `ExecutionId`. -/
structure ExecutionId where
  as_str : Str
  valid : valid_execution_id as_str = true
deriving DecidableEq

/-- `ExecutionId::parse`. -/
def ExecutionId.parse (value : Str) : Option ExecutionId :=
  if h : valid_execution_id value = true then some ⟨value, h⟩ else none

@[simp] theorem ExecutionId.parse_as_str (id : ExecutionId) :
    ExecutionId.parse id.as_str = some id := dif_pos id.valid

theorem ExecutionId.ext {a b : ExecutionId} (h : a.as_str = b.as_str) : a = b := by
  cases a
  cases b
  simp only [ExecutionId.mk.injEq]
  exact h

theorem ExecutionId.length (id : ExecutionId) : id.as_str.length = 36 := by
  have h := id.valid
  unfold valid_execution_id at h
  simp only [Bool.and_eq_true, decide_eq_true_eq] at h
  exact h.1.1.1

/-- The characters of an execution id are hex digits and hyphens. -/
theorem ExecutionId.chars (id : ExecutionId) : ∀ c ∈ id.as_str, c = '-' ∨ is_lower_hex c = true := by
  have h := id.valid
  unfold valid_execution_id at h
  simp only [Bool.and_eq_true, List.all_eq_true] at h
  obtain ⟨⟨⟨-, hall⟩, -⟩, -⟩ := h
  intro c hc
  obtain ⟨index, hlt, hindex⟩ := List.mem_iff_getElem.mp hc
  have hmem : (c, index) ∈ id.as_str.zipIdx := by
    rw [List.mk_mem_zipIdx_iff_getElem?, List.getElem?_eq_getElem hlt, hindex]
  have hchar := hall (c, index) hmem
  dsimp only at hchar
  split at hchar
  · exact Or.inl (of_decide_eq_true hchar)
  · exact Or.inr hchar

end LeanBun.Core
