/-
What a recovery that fails has written.

A recovery settles the transaction's record and the retained references before it
looks at the lock, and settles the transaction's record before it reads the
temporary records. When one of the later steps fails, what it has written stays.
The main result says from which states that can happen.
-/
import LeanBun.Generation.Progress
import LeanBun.Generation.Recovering

set_option autoImplicit false

namespace LeanBun.Generation

open LeanBun.Lib LeanBun.Core LeanBun.Store

variable {manager : LeanGenerationManagerV1} {s s' : ProjectState} {g : LeanBunGenerationV1}

/-! ## The durable records -/

/-- The durable records are byte for byte the same. -/
structure SameRecords (s s' : ProjectState) : Prop where
  active : s'.active = s.active
  lock : s'.lock = s.lock
  retained : s'.retained = s.retained
  transactions : s'.transactions = s.transactions

theorem SameRecords.refl (s : ProjectState) : SameRecords s s := ⟨rfl, rfl, rfl, rfl⟩

theorem SameRecords.trans {s'' : ProjectState} (h : SameRecords s s') (h' : SameRecords s' s'') :
    SameRecords s s'' :=
  ⟨h'.active.trans h.active, h'.lock.trans h.lock, h'.retained.trans h.retained,
    h'.transactions.trans h.transactions⟩

/-- A failed recovery has left the durable records alone. -/
def KeepsRecords (manager : LeanGenerationManagerV1) (g : LeanBunGenerationV1) (s : ProjectState) :
    Prop :=
  ∀ e, ((recover manager g).run s).1 = .error e → SameRecords s ((recover manager g).run s).2

/-! ## What is in the way of a recovery -/

/-- No one else holds the project lock. -/
def lock_free (s : ProjectState) (g : LeanBunGenerationV1) : Prop :=
  s.lock = none ∨ s.lock = some (lock_bytes g)

/-- Every temporary record can be read. -/
def temps_readable (s : ProjectState) : Prop :=
  ∀ text ∈ s.active_temps, byte_len text ≤ MAX_RECORD_BYTES

/-- Nothing comes after the first write of a recovery that could fail. -/
structure Unhindered (manager : LeanGenerationManagerV1) (g : LeanBunGenerationV1) (s : ProjectState) :
    Prop where
  /-- The publication of a verified transaction is completed to its end. -/
  completing : ∀ record, RecoversActive manager s g record → record.state = .Verified →
    lock_free s g ∧ fits s g
  /-- A published transaction is retained already, or can be retained and released. -/
  retaining : ∀ record, RecoversActive manager s g record → record.state = .Published →
    ∀ text, Retains s g text →
      s.retained = some text ∨ lock_free s g ∧ byte_len text ≤ MAX_RECORD_BYTES
  /-- A transaction without an end, or without a record, is given up to its end. -/
  abandoning : ∀ record, RecoversInactive manager s g record → record.state ≠ .Failed →
    lock_free s g ∧ temps_readable s

/-- Without evidence nothing is written. -/
theorem Unhindered.of_no_evidence (hactive : ∀ record, ¬RecoversActive manager s g record)
    (hinactive : ∀ record, ¬RecoversInactive manager s g record) : Unhindered manager g s :=
  ⟨fun record h => absurd h (hactive record), fun record h => absurd h (hactive record),
    fun record h => absurd h (hinactive record)⟩

theorem Retains.unique {text other : Str} (h : Retains s g text) (h' : Retains s g other) :
    text = other := by
  obtain ⟨pairs, hpairs, rfl⟩ := h
  obtain ⟨pairs', hpairs', rfl⟩ := h'
  rw [hpairs] at hpairs'
  rw [Except.ok.inj hpairs']

theorem fits_iff : fits s g ↔ ∃ text, Retains s g text ∧ byte_len text ≤ MAX_RECORD_BYTES := by
  constructor
  · rintro ⟨pairs, hpairs, hsmall⟩
    exact ⟨_, ⟨pairs, hpairs, rfl⟩, hsmall⟩
  · rintro ⟨_, ⟨pairs, hpairs, rfl⟩, hsmall⟩
    exact ⟨pairs, hpairs, hsmall⟩

/-- Settling a transaction in another state changes its record. -/
theorem settle_differs {record : TransactionRecord} {state : LeanGenerationStateV1}
    (hrecord : s.transactions g.transaction_id = none ∨
      s.transactions g.transaction_id = some (transaction_bytes record))
    (hstate : record.state ≠ state) (hsame : s'.transactions = (settle s g record state).transactions) :
    ¬SameRecords s s' := by
  intro h
  have hat : (settle s g record state).transactions g.transaction_id =
      some (transaction_bytes { record with state := state }) := Function.update_self ..
  rw [← hsame, h.transactions] at hat
  rcases hrecord with hnone | hsome
  · rw [hnone] at hat
    cases hat
  · rw [hsome] at hat
    have heq := transaction_bytes_injective (Option.some.inj hat)
    exact hstate (congrArg TransactionRecord.state heq)

/-! ## The removal of temporary records -/

theorem remove_active_temp_steps (expected candidate : Str) :
    (remove_active_temp expected candidate).Steps fun _ s s' => SameRecords s s' := by
  apply Prog.steps_atomic
  intro s
  unfold stable_read
  by_cases hsmall : byte_len candidate ≤ MAX_RECORD_BYTES
  · rw [if_pos hsmall]
    by_cases hsame : candidate = expected
    · show SameRecords s (if candidate = expected then _ else _ : GenerationResult Unit × ProjectState).2
      rw [if_pos hsame]
      exact ⟨rfl, rfl, rfl, rfl⟩
    · show SameRecords s (if candidate = expected then _ else _ : GenerationResult Unit × ProjectState).2
      rw [if_neg hsame]
      exact .refl s
  · rw [if_neg hsmall]
    exact .refl s

theorem remove_abandoned_active_temp_steps :
    (remove_abandoned_active_temp g).Steps fun _ s s' => SameRecords s s' := by
  apply (Prog.steps_read fun s => SameRecords.refl s).bind
  intro candidates
  apply Prog.Steps.for_each
  intro candidate _
  exact remove_active_temp_steps _ candidate

/-- The loop stops at a record that it cannot read. -/
theorem remove_unreadable {expected : Str} {rest : List Str} {s : ProjectState}
    (h : ∃ text ∈ rest, MAX_RECORD_BYTES < byte_len text) :
    Prog.Holds (fun _ => True) (fun _ _ => False) (fun _ _ => True)
      (Prog.for_each (remove_active_temp expected) rest) s := by
  induction rest generalizing s with
  | nil =>
    obtain ⟨text, htext, -⟩ := h
    exact absurd htext List.not_mem_nil
  | cons first rest ih =>
    show Prog.Holds _ _ _ (remove_active_temp expected first >>= fun _ =>
      Prog.for_each (remove_active_temp expected) rest) s
    apply Prog.holds_bind.mpr
    refine Prog.holds_atomic.mpr ⟨trivial, trivial, fun _ hok => ?_, fun _ _ => trivial⟩
    apply ih
    by_cases hsmall : byte_len first ≤ MAX_RECORD_BYTES
    · obtain ⟨text, htext, hlarge⟩ := h
      rcases List.mem_cons.mp htext with rfl | htext
      · omega
      · exact ⟨text, htext, hlarge⟩
    · rw [show stable_read first = _ from if_neg hsmall] at hok
      cases hok

/-- **The removal of temporary records** changes no durable record, and fails exactly
when one of the temporary records cannot be read. -/
theorem remove_abandoned_active_temp_records :
    Prog.Holds (fun s' => SameRecords s s')
      (fun _ s' => SameRecords s s' ∧ temps_readable s)
      (fun _ s' => SameRecords s s' ∧ ¬temps_readable s) (remove_abandoned_active_temp g) s := by
  have hsteps := remove_abandoned_active_temp_steps (g := g)
  have hsame := hsteps.holds (J := fun s' => SameRecords s s')
    (fun _ _ _ h hs => hs.trans h) (SameRecords.refl s)
  by_cases hreadable : temps_readable s
  · have hdone : Prog.Holds (fun _ => True) (fun _ _ => True) (fun _ _ => False)
        (remove_abandoned_active_temp g) s :=
      Holds.remove_abandoned_active_temp hreadable (fun _ _ => trivial) trivial
    exact (hsame.and hdone).mono (fun _ h => h.1) (fun _ _ _ h => ⟨h.1, hreadable⟩)
      fun _ _ _ h => h.2.elim
  · have hlarge : ∃ text ∈ s.active_temps, MAX_RECORD_BYTES < byte_len text := by
      unfold temps_readable at hreadable
      push Not at hreadable
      exact hreadable
    have hfails : Prog.Holds (fun _ => True) (fun _ _ => False) (fun _ _ => True)
        (remove_abandoned_active_temp g) s := by
      unfold remove_abandoned_active_temp
      apply Prog.Holds.read_bind trivial
      · exact fun _ _ => trivial
      intro candidates hcandidates
      rw [← Except.ok.inj hcandidates]
      exact remove_unreadable hlarge
    exact (hsame.and hfails).mono (fun _ h => h.1) (fun _ _ _ h => h.2.elim)
      fun _ _ _ h => ⟨h.1, hreadable⟩

/-! ## The recovery -/

/-- A run that fails with the records changed exactly when it was hindered. -/
abbrev RefusesSafely {α : Type} (manager : LeanGenerationManagerV1) (g : LeanBunGenerationV1)
    (s : ProjectState) (p : ManagerProg α) (s' : ProjectState) : Prop :=
  Prog.Holds (fun _ => True) (fun _ _ => Unhindered manager g s)
    (fun _ s'' => SameRecords s s'' ↔ Unhindered manager g s) p s'

/-- The last step of a recovery fails before someone else's lock, and changes nothing
then. -/
theorem release_refuses {state : LeanGenerationStateV1} {active : Bool}
    (hfree : lock_free s' g → Unhindered manager g s)
    (hother : ¬lock_free s' g → (SameRecords s s' ↔ Unhindered manager g s)) :
    RefusesSafely manager g s (do
      let released ← release_lock_if_owned g
      return (⟨state, active, released⟩ : LeanGenerationRecoveryV1)) s' := by
  apply release_recovered trivial
  · exact fun h => ⟨trivial, hfree h⟩
  · exact fun h _ => hother h

/-- The rest of a recovery whose transaction is published. -/
theorem update_refuses (hretained : s'.retained = s.retained) (hlock : s'.lock = s.lock)
    (hunread : (∀ text, ¬Retains s g text) → (SameRecords s s' ↔ Unhindered manager g s))
    (hwritten : ∀ text, Retains s g text →
      (lock_free s g ∧ byte_len text ≤ MAX_RECORD_BYTES → Unhindered manager g s) ∧
      (¬(lock_free s g ∧ byte_len text ≤ MAX_RECORD_BYTES) →
        (SameRecords s { s' with retained := some text } ↔ Unhindered manager g s))) :
    RefusesSafely manager g s (do
      update_retained g
      let released ← release_lock_if_owned g
      return (⟨.Published, true, released⟩ : LeanGenerationRecoveryV1)) s' := by
  have hread : read_retained s' = read_retained s := by
    unfold read_retained
    rw [hretained]
  have hretains : ∀ text, Retains s' g text ↔ Retains s g text := by
    intro text
    unfold Retains
    rw [hread]
  have hfree : ∀ text, lock_free { s' with retained := some text } g ↔ lock_free s g := by
    intro text
    unfold lock_free
    rw [← hlock]
  apply Prog.Holds.bind (J := fun _ s'' => ∃ text, Retains s g text ∧
    byte_len text ≤ MAX_RECORD_BYTES ∧ s'' = { s' with retained := some text })
  · apply Holds.update_retained trivial
    · intro h _
      refine hunread fun text htext => ?_
      obtain ⟨pairs, hpairs, -⟩ := (hretains text).mpr htext
      exact h pairs hpairs
    · intro text htext
      rw [hretains] at htext
      refine ⟨trivial, fun hlarge _ => ?_, fun hsmall => ⟨text, htext, hsmall, rfl⟩⟩
      apply (hwritten text htext).2
      rintro ⟨-, hsmall⟩
      omega
  rintro _ _ - ⟨text, htext, hsmall, rfl⟩
  apply release_refuses
  · intro h
    exact (hwritten text htext).1 ⟨(hfree text).mp h, hsmall⟩
  · intro h
    apply (hwritten text htext).2
    rintro ⟨hlock_free, -⟩
    exact h ((hfree text).mpr hlock_free)

/-- A recovery of the generation that is active. -/
theorem recover_active_refuses (hlocation : valid_location manager g = true)
    (hactive : ∃ observed, read_active s = .ok (some observed) ∧ names_generation observed g = true)
    {transaction : Option TransactionRecord}
    (htransaction : s.transactions g.transaction_id = transaction.map transaction_bytes) :
    RefusesSafely manager g s (recover_active g transaction) s := by
  have hinactive : ∀ record, ¬RecoversInactive manager s g record := by
    intro record hrecord
    obtain ⟨observed, hread, hnames⟩ := hactive
    obtain ⟨active, hread', hne⟩ := hrecord.active
    rw [hread] at hread'
    exact hne observed (Except.ok.inj hread').symm (names_generation_transaction hnames).1
  have hrefused : (∀ record, ¬RecoversActive manager s g record) →
      (SameRecords s s ↔ Unhindered manager g s) :=
    fun h => iff_of_true (.refl s) (.of_no_evidence h hinactive)
  unfold recover_active
  apply Holds.verify_generation_bind trivial
  · intro hverified _
    exact hrefused fun record hrecord => hverified hrecord.verified
  intro hverified
  -- neither verified nor published
  have hcheck : ∀ (e : LeanGenerationError) (f : Unit → ManagerProg LeanGenerationRecoveryV1),
      (∀ record, ¬RecoversActive manager s g record) →
        RefusesSafely manager g s (check (.error e) >>= f) s :=
    fun e f h => Holds.check_bind trivial (fun _ _ => hrefused h) fun h => by cases h
  cases transaction with
  | none =>
    refine hcheck _ _ fun record hrecord => ?_
    rw [hrecord.transaction] at htransaction
    cases htransaction
  | some record =>
    have hsome : s.transactions g.transaction_id = some (transaction_bytes record) := htransaction
    have hstate : record.state ≠ .Published → record.state ≠ .Verified →
        ∀ other, ¬RecoversActive manager s g other := by
      intro hpublished hverified other hother
      rw [hother.record_eq hsome] at hother
      rcases hother.state with h | ⟨h, -⟩
      · exact hpublished h
      · exact hverified h
    obtain ⟨transaction, project, generation, state⟩ := record
    cases state with
    | Published =>
      have hevidence : RecoversActive manager s g ⟨transaction, project, generation, .Published⟩ :=
        ⟨hlocation, hactive, hverified, hsome, Or.inl rfl⟩
      -- only the retained references are still written
      have hunhindered : Unhindered manager g s ↔ ∀ text, Retains s g text →
          s.retained = some text ∨ lock_free s g ∧ byte_len text ≤ MAX_RECORD_BYTES := by
        refine ⟨fun h => h.retaining _ hevidence rfl, fun h => ⟨?_, fun _ _ _ => h, ?_⟩⟩
        · intro other hother hverified
          rw [hother.record_eq hsome] at hverified
          cases hverified
        · exact fun other hother => absurd hother (hinactive other)
      apply update_refuses rfl rfl
      · intro hnone
        refine iff_of_true (.refl s) (hunhindered.mpr fun text htext => ?_)
        exact absurd htext (hnone text)
      · intro text htext
        refine ⟨fun h => hunhindered.mpr fun other hother => ?_, fun h => ?_⟩
        · rw [hother.unique htext]
          exact Or.inr h
        · rw [hunhindered]
          constructor
          · intro hsame other hother
            rw [hother.unique htext]
            exact Or.inl hsame.retained.symm
          · intro hall
            exact ⟨rfl, rfl, ((hall text htext).resolve_right h).symm, rfl⟩
    | Verified =>
      apply Prog.Holds.bind (J := fun _ s' =>
        RecoversActive manager s g ⟨transaction, project, generation, .Verified⟩ ∧
        s' = settle s g ⟨transaction, project, generation, .Verified⟩ .Published)
      · apply Holds.transition hsome trivial
        · intro hchecked _
          refine hrefused fun record hrecord => ?_
          rw [hrecord.record_eq hsome] at hrecord
          rcases hrecord.state with hstate | ⟨-, hproject, hgeneration⟩
          · cases hstate
          · refine hchecked ?_
            show (if _ then _ else if _ then _ else _) = _
            rw [if_neg (by rintro (h | h); exacts [h hproject, h hgeneration]),
              if_neg (by simp [valid_transition])]
        · intro hproject hgeneration _
          have hevidence : RecoversActive manager s g ⟨transaction, project, generation, .Verified⟩ :=
            ⟨hlocation, hactive, hverified, hsome, Or.inr ⟨rfl, hproject, hgeneration⟩⟩
          exact ⟨trivial, hevidence, rfl⟩
      rintro _ _ - ⟨hevidence, rfl⟩
      have hunhindered : Unhindered manager g s ↔ lock_free s g ∧ fits s g := by
        refine ⟨fun h => h.completing _ hevidence rfl, fun h => ⟨fun _ _ _ => h, ?_, ?_⟩⟩
        · intro other hother hpublished
          rw [hother.record_eq hsome] at hpublished
          cases hpublished
        · exact fun other hother => absurd hother (hinactive other)
      have hdiffers : ∀ s', s'.transactions =
          (settle s g ⟨transaction, project, generation, .Verified⟩ .Published).transactions →
          ¬SameRecords s s' := fun s' => settle_differs (Or.inr hsome) (by simp)
      have hretained : (settle s g ⟨transaction, project, generation, .Verified⟩
          .Published).retained = s.retained := rfl
      have hlock : (settle s g ⟨transaction, project, generation, .Verified⟩
          .Published).lock = s.lock := rfl
      apply update_refuses hretained hlock
      · intro hnone
        refine iff_of_false (hdiffers _ rfl) fun h => ?_
        obtain ⟨text, htext, -⟩ := fits_iff.mp (hunhindered.mp h).2
        exact hnone text htext
      · intro text htext
        refine ⟨fun h => hunhindered.mpr ⟨h.1, fits_iff.mpr ⟨text, htext, h.2⟩⟩, fun h => ?_⟩
        refine iff_of_false (hdiffers _ rfl) fun hall => ?_
        obtain ⟨hfree, hfits⟩ := hunhindered.mp hall
        obtain ⟨other, hother, hsmall⟩ := fits_iff.mp hfits
        rw [hother.unique htext] at hsmall
        exact h ⟨hfree, hsmall⟩
    | Preparing => exact hcheck _ _ (hstate (by simp) (by simp))
    | Materialized => exact hcheck _ _ (hstate (by simp) (by simp))
    | Failed => exact hcheck _ _ (hstate (by simp) (by simp))

/-- The rest of a recovery whose transaction has failed. -/
theorem abandon_refuses (htemps : s'.active_temps = s.active_temps) (hlock : s'.lock = s.lock)
    (hdone : lock_free s g ∧ temps_readable s → Unhindered manager g s)
    (hfailed : ∀ s'', SameRecords s' s'' → ¬(lock_free s g ∧ temps_readable s) →
      (SameRecords s s'' ↔ Unhindered manager g s)) :
    RefusesSafely manager g s (do
      remove_abandoned_active_temp g
      let released ← release_lock_if_owned g
      return (⟨.Failed, false, released⟩ : LeanGenerationRecoveryV1)) s' := by
  have hreadable : temps_readable s' ↔ temps_readable s := by
    unfold temps_readable
    rw [htemps]
  have hfree : ∀ s'', SameRecords s' s'' → (lock_free s'' g ↔ lock_free s g) := by
    intro s'' hsame
    unfold lock_free
    rw [hsame.lock, hlock]
  apply Prog.Holds.bind (J := fun _ s'' => SameRecords s' s'' ∧ temps_readable s')
  · refine remove_abandoned_active_temp_records.mono (fun _ _ => trivial) (fun _ _ _ h => h) ?_
    rintro _ s'' - ⟨hsame, hlarge⟩
    apply hfailed s'' hsame
    rintro ⟨-, hsmall⟩
    exact hlarge (hreadable.mpr hsmall)
  rintro _ s'' - ⟨hsame, hsmall⟩
  rw [hreadable] at hsmall
  apply release_refuses
  · intro h
    exact hdone ⟨(hfree s'' hsame).mp h, hsmall⟩
  · intro h
    apply hfailed s'' hsame
    rintro ⟨hlock_free, -⟩
    exact h ((hfree s'' hsame).mpr hlock_free)

/-- A recovery that gives the generation up once its record says so. -/
theorem abandon_settled {record : TransactionRecord} (hevidence : RecoversInactive manager s g record)
    (hrecord : s.transactions g.transaction_id = none ∧ record = transaction_record g .Preparing ∨
      s.transactions g.transaction_id = some (transaction_bytes record))
    (hlive : record.state ≠ .Failed) :
    RefusesSafely manager g s (do
      remove_abandoned_active_temp g
      let released ← release_lock_if_owned g
      return (⟨.Failed, false, released⟩ : LeanGenerationRecoveryV1)) (settle s g record .Failed) := by
  have htemps : (settle s g record .Failed).active_temps = s.active_temps := rfl
  have hlock : (settle s g record .Failed).lock = s.lock := rfl
  have hunhindered : Unhindered manager g s ↔ lock_free s g ∧ temps_readable s := by
    refine ⟨fun h => h.abandoning record hevidence hlive, fun h => ⟨?_, ?_, fun _ _ _ => h⟩⟩
    · exact fun other hother => absurd hevidence hother.not_inactive
    · exact fun other hother => absurd hevidence hother.not_inactive
  apply abandon_refuses htemps hlock hunhindered.mpr
  intro s'' hsame hhindered
  refine iff_of_false ?_ fun h => hhindered (hunhindered.mp h)
  exact settle_differs (hrecord.imp_left And.left) hlive hsame.transactions

/-- A recovery of a generation that is not active. -/
theorem recover_inactive_refuses (hlocation : valid_location manager g = true)
    (hinactive : ∃ active, read_active s = .ok active ∧
      ∀ observed, active = some observed → observed.transaction ≠ g.transaction_id)
    {transaction : Option TransactionRecord}
    (htransaction : s.transactions g.transaction_id = transaction.map transaction_bytes) :
    RefusesSafely manager g s (recover_inactive g transaction) s := by
  have hactive : ∀ record, ¬RecoversActive manager s g record := by
    intro record hrecord
    obtain ⟨observed, hread, hnames⟩ := hrecord.active
    obtain ⟨active, hread', hne⟩ := hinactive
    rw [hread] at hread'
    exact hne observed (Except.ok.inj hread').symm (names_generation_transaction hnames).1
  unfold recover_inactive
  cases transaction with
  | none =>
    have hnone : s.transactions g.transaction_id = none := htransaction
    have hevidence : RecoversInactive manager s g (transaction_record g .Preparing) :=
      ⟨hlocation, hinactive, Or.inl ⟨hnone, rfl⟩, Or.inr ⟨by simp [transaction_record], rfl, rfl⟩⟩
    apply Prog.Holds.bind (J := fun _ s' => s' = settle s g (transaction_record g .Preparing) .Failed)
    · apply Holds.create_transaction_record trivial
      · exact fun hexists => absurd hnone hexists
      · exact fun _ => ⟨trivial, rfl⟩
    rintro _ _ - rfl
    exact abandon_settled hevidence (Or.inl ⟨hnone, rfl⟩) (by simp [transaction_record])
  | some record =>
    have hsome : s.transactions g.transaction_id = some (transaction_bytes record) := htransaction
    -- a transaction that has not ended yet fails now
    have htransition : record.state ≠ .Published → record.state ≠ .Failed →
        valid_transition record.state .Failed = true → RefusesSafely manager g s (do
          transition g .Failed
          remove_abandoned_active_temp g
          let released ← release_lock_if_owned g
          return (⟨.Failed, false, released⟩ : LeanGenerationRecoveryV1)) s := by
      intro hunpublished hlive hvalid
      apply Prog.Holds.bind (J := fun _ s' => RecoversInactive manager s g record ∧
        s' = settle s g record .Failed)
      · apply Holds.transition hsome trivial
        · intro hchecked _
          refine iff_of_true (.refl s) (.of_no_evidence hactive fun other hother => ?_)
          rw [hother.record_eq hsome] at hother
          rcases hother.state with hfailed | ⟨-, hproject, hgeneration⟩
          · exact hlive hfailed
          · refine hchecked ?_
            show (if _ then _ else if _ then _ else _) = _
            rw [if_neg (by rintro (h | h); exacts [h hproject, h hgeneration]),
              if_neg (by rw [hvalid]; simp)]
        · intro hproject hgeneration _
          have hevidence : RecoversInactive manager s g record :=
            ⟨hlocation, hinactive, Or.inr hsome, Or.inr ⟨hunpublished, hproject, hgeneration⟩⟩
          exact ⟨trivial, hevidence, rfl⟩
      rintro _ _ - ⟨hevidence, rfl⟩
      exact abandon_settled hevidence (Or.inr hsome) hlive
    obtain ⟨transaction, project, generation, state⟩ := record
    cases state with
    | Published =>
      apply Holds.check_bind trivial
      · intro e _
        refine iff_of_true (.refl s) (.of_no_evidence hactive fun other hother => ?_)
        rw [hother.record_eq hsome] at hother
        rcases hother.state with hfailed | ⟨hunpublished, -⟩
        · cases hfailed
        · exact hunpublished rfl
      · intro h
        cases h
    | Failed =>
      -- the record says so already, and nothing durable is written before the lock
      have hunhindered : Unhindered manager g s := by
        refine ⟨fun other hother => absurd hother (hactive other),
          fun other hother => absurd hother (hactive other), fun other hother hlive => ?_⟩
        rw [hother.record_eq hsome] at hlive
        exact absurd rfl hlive
      exact abandon_refuses rfl rfl (fun _ => hunhindered)
        fun s'' hsame _ => iff_of_true hsame hunhindered
    | Preparing => exact htransition (by simp) (by simp) rfl
    | Materialized => exact htransition (by simp) (by simp) rfl
    | Verified => exact htransition (by simp) (by simp) rfl

/-- A recovery ends with the records changed and an error exactly when it was
hindered. -/
theorem recover_refuses : RefusesSafely manager g s (recover manager g) s := by
  apply Holds.recover trivial
  · intro h _
    refine iff_of_true (.refl s) (.of_no_evidence (fun record hrecord => ?_) fun record hrecord => ?_)
    · obtain ⟨transaction, active, hadmitted⟩ := hrecord.admitted
      exact h transaction active hadmitted
    · obtain ⟨transaction, active, hadmitted⟩ := hrecord.admitted
      exact h transaction active hadmitted
  intro transaction active h
  have htransaction := read_transaction_eq_ok.mp h.transaction
  rcases h.branch with ⟨hany, hactive⟩ | ⟨hany, hinactive⟩
  · rw [if_pos hany]
    exact recover_active_refuses h.location hactive htransaction
  · rw [if_neg (Bool.not_eq_true _ ▸ hany)]
    exact recover_inactive_refuses h.location hinactive htransaction

/-- **A failed recovery keeps the durable records** exactly when nothing is in the way
of its writes. -/
theorem recover_keeps_records_iff (manager : LeanGenerationManagerV1) (g : LeanBunGenerationV1)
    (s : ProjectState) : KeepsRecords manager g s ↔ Unhindered manager g s := by
  rcases recover_refuses.run with ⟨result, hok, hunhindered⟩ | ⟨e, herror, hiff⟩
  · refine iff_of_true (fun e he => ?_) hunhindered
    rw [hok] at he
    cases he
  · constructor
    · exact fun h => hiff.mp (h e herror)
    · exact fun h _ _ => hiff.mpr h

/-! ## Someone else's lock -/

/-- A transaction that has a record is not published any more. -/
theorem publish_refused (objects : ObjectTrees) (fault : LeanGenerationFaultV1)
    (h : s.transactions g.transaction_id ≠ none) :
    ∃ e, ((publish manager objects g fault).run s).1 = .error e := by
  have hfails : Prog.Holds (fun _ => True) (fun _ _ => False) (fun _ _ => True)
      (publish manager objects g fault) s := by
    unfold publish
    apply Holds.check_bind trivial fun _ _ => trivial
    intro _
    apply Holds.acquire_lock_bind trivial fun _ _ => trivial
    intro _
    apply Holds.inject_bind trivial fun _ _ => trivial
    apply Prog.holds_bind.mpr
    apply Holds.create_transaction_record trivial
    · exact fun _ _ => trivial
    · exact fun hnone => absurd hnone h
  rcases hfails.run with ⟨_, -, hfalse⟩ | ⟨e, he, -⟩
  · exact hfalse.elim
  · exact ⟨e, he⟩

/-- A recovery of a generation that nothing on disk knows, in front of someone else's
lock, fails and leaves a record of its transaction. -/
theorem recover_leaves_record (hevidence : RecoversInactive manager s g (transaction_record g .Preparing))
    (hnone : s.transactions g.transaction_id = none) (hforeign : ¬lock_free s g) :
    ∃ e, ((recover manager g).run s).1 = .error e ∧
      ((recover manager g).run s).2.transactions g.transaction_id ≠ none := by
  have hfails : Prog.Holds (fun _ => True) (fun _ _ => False)
      (fun _ s' => s'.transactions g.transaction_id ≠ none) (recover manager g) s := by
    apply Holds.recover trivial
    · intro h _
      obtain ⟨transaction, active, hadmitted⟩ := hevidence.admitted
      exact absurd hadmitted (h transaction active)
    intro transaction active h
    have hread : transaction = none := by
      have htransaction := h.transaction
      rw [read_transaction_none hnone] at htransaction
      exact (Except.ok.inj htransaction).symm
    rcases h.branch with ⟨-, hactive⟩ | ⟨hany, -⟩
    · obtain ⟨observed, hobserved, hnames⟩ := hactive
      obtain ⟨active, hactive', hne⟩ := hevidence.active
      rw [hobserved] at hactive'
      exact absurd (names_generation_transaction hnames).1 (hne observed (Except.ok.inj hactive').symm)
    rw [if_neg (Bool.not_eq_true _ ▸ hany), hread]
    unfold recover_inactive
    -- the record is written first
    apply Prog.Holds.bind (J := fun _ s' => s'.transactions g.transaction_id ≠ none ∧
      s'.lock = s.lock)
    · apply Holds.create_transaction_record trivial
      · exact fun hexists => absurd hnone hexists
      · refine fun _ => ⟨trivial, ?_, rfl⟩
        rw [show (s.set_transaction g.transaction_id _).transactions g.transaction_id = some _ from
          Function.update_self ..]
        simp
    rintro _ s' - ⟨hsome, hlock⟩
    apply Prog.Holds.bind (J := fun _ s'' => SameRecords s' s'')
    · refine remove_abandoned_active_temp_records.mono (fun _ _ => trivial)
        (fun _ _ _ hsame => hsame.1) ?_
      rintro _ s'' - ⟨hsame, -⟩
      rw [hsame.transactions]
      exact hsome
    rintro _ s'' - hsame
    -- and the lock is looked at last
    apply release_recovered trivial
    · intro hfree
      rw [hsame.lock, hlock] at hfree
      exact absurd hfree hforeign
    · intro _ _
      rw [hsame.transactions]
      exact hsome
  rcases hfails.run with ⟨_, -, hfalse⟩ | ⟨e, he, hsome⟩
  · exact hfalse.elim
  · exact ⟨e, he, hsome⟩

/-- The first generation holds the lock; nothing else has happened yet. -/
def locked_by_first : ProjectState :=
  { ProjectState.initial with lock := some (lock_bytes first_generation) }

theorem second_not_owner : ¬lock_free locked_by_first second_generation := by
  rintro (h | h)
  · cases h
  · exact distinct_identities (lock_bytes_injective (Option.some.inj h)).2.symm

/-- **A recovery in front of someone else's lock.** It fails, yet its generation can
never be published after it. -/
theorem recover_before_foreign_lock :
    ¬(∀ manager g s, KeepsRecords manager g s) ∧
    locked_by_first.transactions second_generation.transaction_id = none ∧
    (∃ e, ((recover sample_manager second_generation).run locked_by_first).1 = .error e) ∧
    ∀ objects fault lock, ∃ e, ((publish sample_manager objects second_generation fault).run
      { ((recover sample_manager second_generation).run locked_by_first).2 with lock := lock }).1 =
        .error e := by
  have hevidence : RecoversInactive sample_manager locked_by_first second_generation
      (transaction_record second_generation .Preparing) :=
    ⟨bare_generation_location _ _ _, ⟨none, rfl, fun _ h => by cases h⟩, Or.inl ⟨rfl, rfl⟩,
      Or.inr ⟨by simp [transaction_record], rfl, rfl⟩⟩
  obtain ⟨e, he, hsome⟩ := recover_leaves_record hevidence rfl second_not_owner
  refine ⟨fun h => ?_, rfl, ⟨e, he⟩, ?_⟩
  · have hsame := h sample_manager second_generation locked_by_first e he
    rw [hsame.transactions] at hsome
    exact hsome rfl
  · intro objects fault lock
    generalize ((recover sample_manager second_generation).run locked_by_first).2 = s' at hsome
    exact publish_refused objects fault hsome

end LeanBun.Generation
