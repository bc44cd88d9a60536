/-
What the manager writes and what it reads.

Three line records, each with its own reader. A transaction record and a retained record
are read back whatever they hold, and no reader takes a text that its writer would not
write. The active record has a path in it, and the path is that of the state: a publication
renames an active record that cannot be read back exactly when it gets that far below a
path with a control character.
-/
import LeanBun.Generation.Completion

set_option autoImplicit false

namespace LeanBun.Generation

open LeanBun.Lib LeanBun.Core

variable {manager : LeanGenerationManagerV1} {g : LeanBunGenerationV1}

/-- The active record after any part of a publication is the one before it, or that of
the generation. -/
theorem PublishPhase.active {s s' : ProjectState} (h : PublishPhase manager s g s') :
    s'.active = s.active ∨ s'.active = some (active_text g) := by
  cases h with
  | idle => exact Or.inl rfl
  | locked => exact Or.inl rfl
  | staged => exact Or.inl rfl
  | activated => exact Or.inr rfl
  | retained => exact Or.inr rfl
  | released => exact Or.inr rfl

/-- What `publish_active` puts in place is read back exactly below a plain path. -/
theorem read_published_active_iff {s : ProjectState} (hlocation : valid_location manager g = true)
    (hactive : s.active = some (active_text g)) :
    read_active s = .ok (some (active_record g)) ↔ plain_path manager.state_root = true := by
  rw [read_active_bytes hactive, ← clean_generation_root hlocation]
  exact ⟨fun h => h.2.1, fun h => ⟨rfl, h, active_text_small g⟩⟩

/-- **Read back.** Every transaction record and every retained record is read back, each
reader takes the canonical text only, and the active record that a publication leaves
behind, cut off anywhere, is the one before it or one that is read back exactly when the
path of the state has no control character. -/
theorem published_records_read_back_iff (manager : LeanGenerationManagerV1) (g : LeanBunGenerationV1)
    (hlocation : valid_location manager g = true) :
    (∀ state, parse_transaction (transaction_bytes (transaction_record g state)) =
      .ok (transaction_record g state)) ∧
    (∀ pairs : List Reference, StrictlySorted reference_key pairs → pairs.length < 2 ^ 64 →
      parse_retained (retained_bytes pairs) = .ok pairs) ∧
    ((∀ text record, parse_transaction text = .ok record → transaction_bytes record = text) ∧
      (∀ text record, parse_active text = .ok record → active_bytes record = text) ∧
      ∀ text pairs, parse_retained text = .ok pairs → retained_bytes pairs = text) ∧
    (parse_active (active_bytes (active_record g)) = .ok (active_record g) ↔
      plain_path manager.state_root = true) ∧
    ∀ (objects : ObjectTrees) (fault : LeanGenerationFaultV1) (s : ProjectState) (n : ℕ),
      ((publish manager objects g fault).crash n s).active = s.active ∨
      ((publish manager objects g fault).crash n s).active = some (active_text g) ∧
        (read_active ((publish manager objects g fault).crash n s) = .ok (some (active_record g)) ↔
          plain_path manager.state_root = true) := by
  refine ⟨fun state => parse_transaction_bytes _, fun pairs => parse_retained_bytes, ⟨fun _ _ =>
    parse_transaction_canonical, fun _ _ h => (parse_active_eq_ok h).1, fun _ _ =>
      parse_retained_canonical⟩, ?_, fun objects fault s n => ?_⟩
  · rw [parse_active_bytes_iff, ← clean_generation_root hlocation]
    exact ⟨fun h => h.2, fun h => ⟨rfl, h⟩⟩
  · obtain hsame | hactive := ((publish_phases objects fault).crash n).active
    · exact Or.inl hsame
    · exact Or.inr ⟨hactive, read_published_active_iff hlocation hactive⟩

/-- The theorem for the first generation of a project. -/
theorem published_records_read_back_sample :
    parse_active (active_bytes (active_record first_generation)) =
      .ok (active_record first_generation) :=
  (published_records_read_back_iff sample_manager first_generation
    (bare_generation_location _ _ _)).2.2.2.1.mpr (by decide)

/-- A first publication puts an active record in place that no reader takes. -/
def RenamesUnreadable (manager : LeanGenerationManagerV1) (objects : ObjectTrees)
    (g : LeanBunGenerationV1) : Prop :=
  ((publish manager objects g .None).run ProjectState.initial).2.active =
      some (active_bytes (active_record g)) ∧
    parse_active (active_bytes (active_record g)) ≠ .ok (active_record g)

/-- Without a plain path the first publication renames a record that no one reads. -/
theorem unplain_active (transaction : ExecutionId)
    (hproject : valid_absolute_path manager.project_root = true)
    (hroot : valid_absolute_path (manager.generation_root transaction) = true)
    (hplain : plain_path manager.state_root = false) (objects : ObjectTrees) :
    RenamesUnreadable manager objects (bare_generation manager transaction hproject hroot) := by
  have hlocation := bare_generation_location transaction hproject hroot
  have hdirectory := materializes_bare objects (g := bare_generation manager transaction hproject hroot)
    rfl (bare_generation_small transaction hproject hroot)
  generalize bare_generation manager transaction hproject hroot = g at hlocation hdirectory ⊢
  have hpublish := (publish_undisturbed objects (s := ProjectState.initial) hlocation rfl rfl rfl).run
  have hclean : clean_value g.generation_root = false := (clean_generation_root hlocation).trans hplain
  constructor
  · rcases hpublish with ⟨_, -, -, _, _, -, -, -, h, -⟩ | ⟨e, herror, ⟨-, hnot⟩ | ⟨-, hactive, -⟩⟩
    · rw [hclean] at h
      cases h
    · exact absurd hdirectory (hnot _)
    · exact hactive
  · intro h
    have hparsed : clean_value g.generation_root = true := (parse_active_bytes_iff.mp h).2
    rw [hclean] at hparsed
    cases hparsed

/-- **A control character in the path of the state.** The first publication renames its
active record into place, and no reader takes it. -/
theorem active_record_unreadable : valid_location broken_manager broken_generation = true ∧
    RenamesUnreadable broken_manager no_objects broken_generation :=
  ⟨bare_generation_location _ _ _,
    unplain_active first_transaction _ broken_root_valid (by decide) no_objects⟩

end LeanBun.Generation
