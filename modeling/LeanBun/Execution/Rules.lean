/-
Rules for the store functions under interference.

What one thread does between the moves of others is shown with the triples of
`Prog.Does`. Here are the triples of the operations and of the two functions that are
built from others, for any reliance, any guarantee and any assertions: an operation that
fails has no effect, an ignored error leaves what both ends have in common, and a
transition is its parts.
-/
import LeanBun.Execution.Store
import LeanBun.Lib.Interference

set_option autoImplicit false

namespace LeanBun.Execution

open LeanBun.Lib

section Rules

variable {A : Label → StateRoot → Prop} {R : StateRoot → StateRoot → Prop}
  {G : Label → StateRoot → StateRoot → Prop} {α : Type} {P : StateRoot → Prop}
  {Q : α → StateRoot → Prop} {E : StoreFailure → StateRoot → Prop} {env : Environment}

/-- An operation with a label. -/
theorem does_perform_labelled {op : Operation} {label : StateRoot → Label}
    {f : StateRoot → Except StoreFailure α × StateRoot} (hstable : Prog.Stable R P)
    (hQ : ∀ a, Prog.Stable R (Q a)) (hE : ∀ e, Prog.Stable R (E e))
    (hfault : ∀ e s, P s → E e s)
    (h : ∀ s, P s → A (label s) s → G (label s) s (f s).2 ∧ Prog.ends Q E (f s).1 (f s).2) :
    Prog.Does A R G P (env.perform_labelled op label f) Q E := by
  unfold Environment.perform_labelled
  cases env.faults [] op with
  | some message => exact Prog.does_fail hstable (hfault _)
  | none => exact Prog.does_atomic hstable hQ hE h

/-- An operation: a fault leaves the assertion. -/
theorem does_perform {op : Operation} {f : StateRoot → Except StoreFailure α × StateRoot}
    (hstable : Prog.Stable R P) (hQ : ∀ a, Prog.Stable R (Q a)) (hE : ∀ e, Prog.Stable R (E e))
    (hfault : ∀ e s, P s → E e s)
    (h : ∀ s, P s → A .quiet s → G .quiet s (f s).2 ∧ Prog.ends Q E (f s).1 (f s).2) :
    Prog.Does A R G P (env.perform op f) Q E :=
  does_perform_labelled hstable hQ hE hfault h

/-- An operation that changes nothing. -/
theorem does_inspect {op : Operation} {f : StateRoot → Except StoreFailure α}
    (hG : ∀ s, G .quiet s s) (hstable : Prog.Stable R P) (hQ : ∀ a, Prog.Stable R (Q a))
    (hE : ∀ e, Prog.Stable R (E e)) (hfault : ∀ e s, P s → E e s)
    (h : ∀ s, P s → A .quiet s → Prog.ends Q E (f s) s) :
    Prog.Does A R G P (env.inspect op f) Q E :=
  does_perform hstable hQ hE hfault fun s hs hA => ⟨hG s, h s hs hA⟩

/-- A look that every assertion survives. -/
theorem does_look_past {op : Operation} {f : StateRoot → Except StoreFailure α}
    (hG : ∀ s, G .quiet s s) (hstable : Prog.Stable R P) :
    Prog.Does A R G P (env.inspect op f) (fun _ => P) fun _ => P := by
  refine does_inspect hG hstable (fun _ => hstable) (fun _ => hstable) (fun _ _ hs => hs) ?_
  intro s hs _
  cases f s <;> exact hs

/-- An ignored error. -/
theorem does_ignore {p : StoreProg Unit} {D : StateRoot → Prop} (hD : Prog.Stable R D)
    (h : Prog.Does A R G P p (fun _ => D) fun _ => D) :
    Prog.Does A R G P (ignore p) (fun _ => D) E := by
  unfold ignore
  refine (Prog.does_attempt h).bind fun result => ?_
  cases result with
  | ok _ => exact Prog.does_pure hD fun _ hs => hs
  | error _ => exact Prog.does_pure hD fun _ hs => hs

/-- **A transition.** `L` holds while the lock file is the call's own, `Ready` before a
document is published, `D` after it, and `F` when the lock file is removed. -/
theorem does_transition_of {stateRoot id busy : JsString} {on_exists : StoreCode}
    {prepare : StoreProg ControlledBuildExecutionRecordV1} {L : StateRoot → Prop}
    {Ready D F : ControlledBuildExecutionRecordV1 → StateRoot → Prop}
    (hP : Prog.Stable R P) (hDone : ∀ d, Prog.Stable R (D d))
    (hFinal : ∀ d, Prog.Stable R (F d))
    (hopen : Prog.Does A R G P (open_lock env id busy) (fun _ => L) fun _ => P)
    (hprepare : Prog.Does A R G L prepare Ready fun _ => L)
    (hstage : ∀ d, Prog.Does A R G (Ready d) (stage (env.part 1) id d) (fun _ => D d) fun _ => L)
    (hsync : ∀ d, Prog.Does A R G (D d) (env.inspect .sync_directory fun _ => .ok ())
      (fun _ => D d) fun _ => L)
    (hverified : ∀ d, Prog.Does A R G (D d) (verifiedStoredRecord (env.part 2) stateRoot id d)
      (fun stored => D stored.document) fun _ => L)
    (hclean : Prog.Does A R G P (ignore (unlink_temporary env id)) (fun _ => P) fun _ => P)
    (hclean_locked : Prog.Does A R G L (ignore (unlink_temporary env id)) (fun _ => L) fun _ => P)
    (hunlock : Prog.Does A R G L (ignore (unlink_lock env id)) (fun _ => P) fun _ => P)
    (hunlock_done : ∀ d, Prog.Does A R G (D d) (ignore (unlink_lock env id)) (fun _ => F d)
      fun _ => P) :
    Prog.Does A R G P (transition env stateRoot id busy on_exists prepare)
      (fun stored => F stored.document) fun _ => P := by
  unfold transition
  refine (Prog.does_attempt hopen).bind fun opened => ?_
  cases opened with
  | error e => exact hclean.bind fun _ => Prog.does_fail hP fun _ hs => hs
  | ok _ =>
    have hstaged := hprepare.bind fun document => (hstage document).bind fun _ =>
      Prog.does_pure (a := document) (Q := D) (hDone document) fun _ hs => hs
    refine (Prog.does_attempt hstaged).bind fun staged => ?_
    cases staged with
    | error e =>
      exact hclean_locked.bind fun _ => hunlock.bind fun _ => Prog.does_fail hP fun _ hs => hs
    | ok document =>
      refine (Prog.does_attempt ((hsync document).bind fun _ => hverified document)).bind
        fun verified => ?_
      cases verified with
      | error e => exact hunlock.bind fun _ => Prog.does_lift hP fun _ hs => hs
      | ok stored =>
        exact (hunlock_done stored.document).bind fun _ =>
          Prog.does_lift (hFinal stored.document) fun _ hs => hs

end Rules

end LeanBun.Execution
