/-
A publication without crashes and I/O errors.

It should stop before the rename of the active record, or return with its
generation active. The two records that are read back after the rename decide:
the active record has to be free of control characters, the retained record has to
stay within what its reader accepts.
-/
import LeanBun.Generation.Retention

set_option autoImplicit false

namespace LeanBun.Generation

open LeanBun.Lib LeanBun.Core LeanBun.Store

variable {manager : LeanGenerationManagerV1} {s s' : ProjectState} {g : LeanBunGenerationV1}

/-- A generation directory without a transaction record does not exist: the record is
created first. -/
theorem Reachable.recorded (h : Reachable manager s) (t : ExecutionId)
    (hnone : s.transactions t = none) : s.generations t = none := by
  induction h with
  | initial => rfl
  | @step s hreach operation n ih =>
    have hs := hreach.consistent
    -- an update of the record of `g` leaves it there
    have hkept : ∀ {g : LeanBunGenerationV1} {text : Str},
        Function.update s.transactions g.transaction_id (some text) t = none →
        t ≠ g.transaction_id ∧ s.transactions t = none := by
      intro g text hupdate
      rw [update_transaction] at hupdate
      by_cases ht : t = g.transaction_id
      · rw [if_pos ht] at hupdate
        cases hupdate
      · rw [if_neg ht] at hupdate
        exact ⟨ht, hupdate⟩
    cases operation with
    | publish objects g fault =>
      have hphase := publish_crash manager s objects g fault n
      unfold ManagerOperation.program at hnone ⊢
      rw [Prog.crash_bind_pure] at hnone ⊢
      generalize (publish manager objects g fault).crash n s = s' at hphase hnone ⊢
      have hstaged : ∀ {text : Str} {directory : Option GenerationDirectory},
          Function.update s.transactions g.transaction_id (some text) t = none →
          Function.update s.generations g.transaction_id directory t = none := by
        intro text directory hupdate
        obtain ⟨ht, hnone⟩ := hkept hupdate
        rw [Function.update_of_ne ht]
        exact ih hnone
      cases hphase with
      | idle => exact ih hnone
      | locked => exact ih hnone
      | _ => exact hstaged hnone
    | recover g =>
      have hphase := recover_crash hs g n
      unfold ManagerOperation.program at hnone ⊢
      rw [Prog.crash_bind_pure] at hnone ⊢
      generalize (recover manager g).crash n s = s' at hphase hnone ⊢
      cases hphase with
      | idle => exact ih hnone
      | _ => exact ih (hkept hnone).2
    | rollback current retained =>
      have hphase := rollback_crash hs current retained n
      unfold ManagerOperation.program at hnone ⊢
      generalize (rollback_active_generation manager current retained).crash n s = s' at hphase hnone ⊢
      cases hphase <;> exact ih hnone

/-- What a publication of `g` from `s` promises when nothing disturbs it. -/
def Completes (manager : LeanGenerationManagerV1) (objects : ObjectTrees) (s : ProjectState)
    (g : LeanBunGenerationV1) : Prop :=
  (∃ e, ((publish manager objects g .None).run s).1 = .error e ∧
    ((publish manager objects g .None).run s).2.active = s.active) ∨
  (((publish manager objects g .None).run s).1 = .ok (outcome g .Published) ∧
    ((publish manager objects g .None).run s).2.active = some (active_text g) ∧
    (∀ reference ∈ references g, Kept ((publish manager objects g .None).run s).2 reference) ∧
    ((publish manager objects g .None).run s).2.lock = none)

/-- Without a plain path the first publication fails after the rename. -/
theorem unplain_breaks_completion (transaction : ExecutionId)
    (hproject : valid_absolute_path manager.project_root = true)
    (hroot : valid_absolute_path (manager.generation_root transaction) = true)
    (hplain : plain_path manager.state_root = false) (objects : ObjectTrees) :
    ¬Completes manager objects ProjectState.initial
      (bare_generation manager transaction hproject hroot) := by
  have hlocation := bare_generation_location transaction hproject hroot
  have hdirectory := materializes_bare objects (g := bare_generation manager transaction hproject hroot)
    rfl (bare_generation_small transaction hproject hroot)
  generalize bare_generation manager transaction hproject hroot = g at hlocation hdirectory ⊢
  have hpublish := (publish_undisturbed objects (s := ProjectState.initial) hlocation rfl rfl rfl).run
  have hclean : clean_value g.generation_root = false := (clean_generation_root hlocation).trans hplain
  rcases hpublish with ⟨_, -, -, _, _, -, -, -, h, -⟩ | ⟨e, herror, ⟨-, hnot⟩ | ⟨-, hactive, -⟩⟩
  · rw [hclean] at h
    cases h
  · exact absurd hdirectory (hnot _)
  · rintro (⟨_, -, hsame⟩ | ⟨hok, -⟩)
    · rw [hactive] at hsame
      cases hsame
    · rw [herror] at hok
      cases hok

end LeanBun.Generation
