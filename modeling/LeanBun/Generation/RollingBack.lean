/-
What a rollback does, and where it can be cut off.

A rollback takes the lock of the generation that is active, but renames the
active record to the other one: between the rename and the release the lock and
the active record name different generations.
-/
import LeanBun.Generation.Recovering

set_option autoImplicit false

namespace LeanBun.Generation

open LeanBun.Lib LeanBun.Core LeanBun.Store

variable {manager : LeanGenerationManagerV1} {s : ProjectState} {g : LeanBunGenerationV1}

/-- What `verify_published_generation` accepts. -/
def Published (s : ProjectState) (g : LeanBunGenerationV1) : Prop :=
  (∃ record, read_transaction s g.transaction_id = .ok (some record) ∧
    record.project = g.project_id ∧ record.generation = g.identity ∧ record.state = .Published) ∧
  verify_directory g (s.generations g.transaction_id) = .ok ()

/-- What `verify_active_generation` accepts. -/
def Active (manager : LeanGenerationManagerV1) (s : ProjectState) (g : LeanBunGenerationV1) : Prop :=
  valid_location manager g = true ∧
    (∃ observed, read_active s = .ok (some observed) ∧ names_generation observed g = true) ∧
    Published s g

section Verify

variable {I : ProjectState → Prop} {Q : Unit → ProjectState → Prop}
  {E : LeanGenerationError → ProjectState → Prop}

/-- The transaction of the generation is published, and its directory is as it was. -/
theorem Holds.published {missing unpublished : String} (hs : I s)
    (hfail : ¬Published s g → ∀ e, E e s) (hok : Published s g → Q () s) :
    Prog.Holds I Q E (do
      let transaction ← read_transaction_optional g.transaction_id
      check (published_transaction g missing unpublished transaction)
      verify_generation g) s := by
  apply Prog.Holds.read_bind hs
  · intro e he
    refine hfail (fun h => ?_) e
    obtain ⟨⟨record, hrecord, -⟩, -⟩ := h
    rw [hrecord] at he
    cases he
  intro transaction htransaction
  apply Holds.check_bind hs
  · intro e he
    refine hfail (fun h => ?_) e
    obtain ⟨⟨record, hrecord, hproject, hgeneration, hstate⟩, -⟩ := h
    rw [htransaction] at hrecord
    rw [Except.ok.inj hrecord] at he
    change (if _ then _ else _) = _ at he
    rw [if_neg (by
      rintro (h | h | h)
      exacts [h hproject, h hgeneration, h hstate])] at he
    cases he
  intro hchecked
  refine Prog.holds_read.mpr ⟨hs, ?_, ?_⟩
  · intro _ hverified
    apply hok
    cases transaction with
    | none => cases hchecked
    | some record =>
      by_cases hwrong : record.project ≠ g.project_id ∨ record.generation ≠ g.identity ∨
          record.state ≠ .Published
      · change (if _ then _ else _) = _ at hchecked
        rw [if_pos hwrong] at hchecked
        cases hchecked
      · rw [not_or, not_or, not_not, not_not, not_not] at hwrong
        exact ⟨⟨record, htransaction, hwrong⟩, hverified⟩
  · intro e he
    refine hfail (fun h => ?_) e
    rw [h.2] at he
    cases he

theorem Holds.verify_published_generation (hs : I s) (hfail : ¬Published s g → ∀ e, E e s)
    (hok : Published s g → Q () s) : Prog.Holds I Q E (verify_published_generation g) s :=
  Holds.published hs hfail hok

theorem Holds.verify_active_generation (hs : I s) (hfail : ¬Active manager s g → ∀ e, E e s)
    (hok : Active manager s g → Q () s) :
    Prog.Holds I Q E (verify_active_generation manager g) s := by
  unfold LeanBun.Generation.verify_active_generation
  apply Holds.check_bind hs
  · intro e he
    by_cases hlocation : valid_location manager g = true
    · rw [if_pos hlocation] at he
      cases he
    · exact hfail (fun h => hlocation h.1) e
  intro hlocation
  have hlocation : valid_location manager g = true := by
    by_contra hwrong
    rw [if_neg hwrong] at hlocation
    cases hlocation
  apply Prog.Holds.read_bind hs
  · intro e he
    refine hfail (fun h => ?_) e
    obtain ⟨-, ⟨observed, hobserved, -⟩, -⟩ := h
    rw [hobserved] at he
    cases he
  intro active hactive
  apply Holds.check_bind hs
  · intro e he
    refine hfail (fun h => ?_) e
    obtain ⟨-, ⟨observed, hobserved, hnames⟩, -⟩ := h
    rw [hactive] at hobserved
    rw [Except.ok.inj hobserved] at he
    change (if _ then _ else _) = _ at he
    rw [if_pos hnames] at he
    cases he
  intro hnames
  have hnames : ∃ observed, read_active s = .ok (some observed) ∧ names_generation observed g = true := by
    cases active with
    | none => cases hnames
    | some observed =>
      refine ⟨observed, hactive, ?_⟩
      by_contra hwrong
      change (if _ then _ else _) = _ at hnames
      rw [if_neg hwrong] at hnames
      cases hnames
  apply Holds.published hs
  · exact fun hpublished => hfail fun h => hpublished h.2.2
  · exact fun hpublished => hok ⟨hlocation, hnames, hpublished⟩

end Verify

/-- Where a rollback from `current` to `retained` can be cut off. -/
inductive RollbackPhase (manager : LeanGenerationManagerV1) (s : ProjectState)
    (current retained : LeanBunGenerationV1) : ProjectState → Prop
  | idle : RollbackPhase manager s current retained s
  | locked (hfree : s.lock = none) (hcurrent : Active manager s current)
      (hretained : Published s retained) (hlocation : valid_location manager retained = true)
      (temps : List Str)
      (htemps : ∀ text ∈ temps, text ∈ s.active_temps ∨ text = active_text retained) :
      RollbackPhase manager s current retained
        { s with lock := some (lock_bytes current), active_temps := temps }
  | renamed (hfree : s.lock = none) (hcurrent : Active manager s current)
      (hretained : Published s retained) (hlocation : valid_location manager retained = true)
      (hdistinct : current.transaction_id ≠ retained.transaction_id) (lock : Option Str) (hlock : lock = some (lock_bytes current) ∨ lock = none) :
      RollbackPhase manager s current retained { activate s retained with lock := lock }

/-- Under the lock nothing that the closure reads has changed, so it cannot fail. -/
theorem rollback_locked_holds {I : ProjectState → Prop} {E : LeanGenerationError → ProjectState → Prop}
    {current retained : LeanBunGenerationV1} {lock : Option Str} (hcurrent : Active manager s current)
    (hretained : Published s retained) (hlocation : valid_location manager retained = true)
    (hclean : clean_value retained.generation_root = true) (hlocked : I { s with lock := lock })
    (htemp : I { s with lock := lock, active_temps := s.active_temps ++ [active_text retained] })
    (hrenamed : I { activate s retained with lock := lock }) :
    Prog.Holds I (fun _ s' => s' = { activate s retained with lock := lock }) E
      (rollback_locked manager current retained) { s with lock := lock } := by
  unfold rollback_locked
  apply Prog.Holds.bind (J := fun _ s' => s' = { s with lock := lock })
  · exact Holds.verify_active_generation hlocked (fun h => absurd hcurrent h) fun _ => rfl
  rintro _ _ - rfl
  apply Prog.Holds.bind (J := fun _ s' => s' = { s with lock := lock })
  · exact Holds.verify_published_generation hlocked (fun h => absurd hretained h) fun _ => rfl
  rintro _ _ - rfl
  apply Prog.Holds.bind (J := fun _ s' => s' = { activate s retained with lock := lock })
  · refine Holds.publish_active hlocked htemp (fun h => by cases h) hrenamed ?_ fun _ => rfl
    intro hunclean
    rw [hclean] at hunclean
    cases hunclean
  rintro _ _ - rfl
  have hactive : Active manager { activate s retained with lock := lock } retained := by
    refine ⟨hlocation, ⟨active_record retained, ?_, ?_⟩, hretained⟩
    · exact (read_active_bytes rfl).mpr ⟨rfl, hclean, active_text_small retained⟩
    · unfold names_generation active_record
      simp
  exact Holds.verify_active_generation hrenamed (fun h => absurd hactive h) fun _ => rfl

/-- **Rolling back.** Wherever a rollback is cut off, it is in one of its phases, and
when it returns it has switched the active record and released the lock. -/
theorem rollback_phases {current retained : LeanBunGenerationV1}
    (hclean : valid_location manager retained = true → Published s retained →
      clean_value retained.generation_root = true) :
    Prog.Holds (RollbackPhase manager s current retained)
      (fun _ s' => Active manager s current ∧ Published s retained ∧
        s' = { activate s retained with lock := none })
      (fun _ s' => s' = s) (rollback_active_generation manager current retained) s := by
  have hidle : RollbackPhase manager s current retained s := .idle
  unfold rollback_active_generation
  refine Holds.check_bind hidle (fun _ _ => rfl) ?_
  intro _
  refine Holds.check_bind hidle (fun _ _ => rfl) ?_
  intro hlocation
  have hlocation : valid_location manager retained = true := by
    by_contra hwrong
    rw [if_neg hwrong] at hlocation
    cases hlocation
  refine Holds.check_bind hidle (fun _ _ => rfl) ?_
  intro hchecked
  have hdistinct : current.transaction_id ≠ retained.transaction_id := by
    intro hsame
    rw [if_pos (Or.inr hsame)] at hchecked
    cases hchecked
  apply Prog.Holds.bind (J := fun _ s' => Active manager s current ∧ s' = s)
  · exact Holds.verify_active_generation hidle (fun _ _ => rfl) fun h => ⟨h, rfl⟩
  rintro _ _ - ⟨hcurrent, rfl⟩
  rename_i s
  apply Prog.Holds.bind (J := fun _ s' => Published s retained ∧ s' = s)
  · exact Holds.verify_published_generation hidle (fun _ _ => rfl) fun h => ⟨h, rfl⟩
  rintro _ _ - ⟨hretained, rfl⟩
  rename_i s
  refine Holds.acquire_lock_bind hidle (fun _ _ => rfl) ?_
  intro hfree
  have hpath := hclean hlocation hretained
  have hlocked : RollbackPhase manager s current retained
      { s with lock := some (lock_bytes current) } :=
    .locked hfree hcurrent hretained hlocation s.active_temps fun _ h => Or.inl h
  have hrenamed : RollbackPhase manager s current retained
      { activate s retained with lock := some (lock_bytes current) } :=
    .renamed hfree hcurrent hretained hlocation hdistinct _ (Or.inl rfl)
  have hreleased : RollbackPhase manager s current retained { activate s retained with lock := none } :=
    .renamed hfree hcurrent hretained hlocation hdistinct _ (Or.inr rfl)
  have htemp : RollbackPhase manager s current retained { s with
      lock := some (lock_bytes current)
      active_temps := s.active_temps ++ [active_text retained] } := by
    refine .locked hfree hcurrent hretained hlocation _ fun text htext => ?_
    rcases List.mem_append.mp htext with h | h
    · exact Or.inl h
    · exact Or.inr (List.mem_singleton.mp h)
  apply Prog.Holds.attempt_bind
  refine (rollback_locked_holds (E := fun _ _ => False) hcurrent hretained hlocation hpath hlocked
    htemp hrenamed).mono (fun _ h => h) ?_ fun _ _ _ h => h.elim
  rintro _ _ - rfl
  exact Holds.release_lock hrenamed rfl hreleased ⟨hcurrent, hretained, rfl⟩

/-- **A rollback that nothing stands in the way of** switches the active record. -/
theorem rollback_completes {current retained : LeanBunGenerationV1} (hfree : s.lock = none)
    (hcurrent : Active manager s current) (hretained : Published s retained)
    (hlocation : valid_location manager retained = true)
    (hclean : clean_value retained.generation_root = true)
    (hidentity : current.identity ≠ retained.identity)
    (hdistinct : current.transaction_id ≠ retained.transaction_id) :
    (rollback_active_generation manager current retained).run s =
      (.ok (), { activate s retained with lock := none }) := by
  apply Prog.Holds.run_eq (I := fun _ => True)
  unfold rollback_active_generation
  refine Holds.check_bind trivial (fun e he => ?_) fun _ => ?_
  · rw [if_pos hcurrent.1] at he
    cases he
  refine Holds.check_bind trivial (fun e he => ?_) fun _ => ?_
  · rw [if_pos hlocation] at he
    cases he
  refine Holds.check_bind trivial (fun e he => ?_) fun _ => ?_
  · rw [if_neg (not_or.mpr ⟨hidentity, hdistinct⟩)] at he
    cases he
  apply Prog.Holds.bind (J := fun _ s' => s' = s)
  · exact Holds.verify_active_generation trivial (fun h => absurd hcurrent h) fun _ => rfl
  rintro _ _ - rfl
  rename_i s
  apply Prog.Holds.bind (J := fun _ s' => s' = s)
  · exact Holds.verify_published_generation trivial (fun h => absurd hretained h) fun _ => rfl
  rintro _ _ - rfl
  rename_i s
  refine Holds.acquire_lock_bind trivial (fun h => absurd hfree h) fun _ => ?_
  apply Prog.Holds.attempt_bind
  refine (rollback_locked_holds (E := fun _ _ => False) hcurrent hretained hlocation hclean trivial
    trivial trivial).mono (fun _ h => h) ?_ fun _ _ _ h => h.elim
  rintro _ _ - rfl
  exact Holds.release_lock trivial rfl trivial ⟨rfl, rfl⟩

end LeanBun.Generation
