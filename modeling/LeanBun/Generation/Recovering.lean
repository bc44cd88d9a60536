/-
What a recovery does, and where it can be cut off.

A recovery acts on evidence: the active record, the transaction's record and the
directory of the generation. There are two kinds, which exclude each other; a
recovery without either, or before someone else's lock, fails.
-/
import LeanBun.Generation.Publishing

set_option autoImplicit false

namespace LeanBun.Generation

open LeanBun.Lib LeanBun.Core LeanBun.Store

variable {manager : LeanGenerationManagerV1} {s : ProjectState} {g : LeanBunGenerationV1}

/-- The transaction's record after a recovery. -/
def settle (s : ProjectState) (g : LeanBunGenerationV1) (record : TransactionRecord)
    (state : LeanGenerationStateV1) : ProjectState :=
  s.set_transaction g.transaction_id (transaction_bytes { record with state := state })

/-- The evidence on which a recovery completes the publication of `g`. -/
structure RecoversActive (manager : LeanGenerationManagerV1) (s : ProjectState)
    (g : LeanBunGenerationV1) (record : TransactionRecord) : Prop where
  location : valid_location manager g = true
  active : ∃ observed, read_active s = .ok (some observed) ∧ names_generation observed g = true
  verified : verify_directory g (s.generations g.transaction_id) = .ok ()
  transaction : s.transactions g.transaction_id = some (transaction_bytes record)
  state : record.state = .Published ∨
    record.state = .Verified ∧ record.project = g.project_id ∧ record.generation = g.identity

/-- The evidence on which a recovery gives the publication of `g` up: its record may
still be missing. -/
structure RecoversInactive (manager : LeanGenerationManagerV1) (s : ProjectState)
    (g : LeanBunGenerationV1) (record : TransactionRecord) : Prop where
  location : valid_location manager g = true
  active : ∃ active, read_active s = .ok active ∧
    ∀ observed, active = some observed → observed.transaction ≠ g.transaction_id
  transaction : s.transactions g.transaction_id = none ∧ record = transaction_record g .Preparing ∨
    s.transactions g.transaction_id = some (transaction_bytes record)
  state : record.state = .Failed ∨ record.state ≠ .Published ∧ record.project = g.project_id ∧
    record.generation = g.identity

/-- `recover` of `g` completes: it has evidence either way, and no one else's lock
is in its way. -/
def Recoverable (manager : LeanGenerationManagerV1) (s : ProjectState) (g : LeanBunGenerationV1) :
    Prop :=
  (s.lock = none ∨ s.lock = some (lock_bytes g)) ∧
    ((∃ record, RecoversActive manager s g record) ∧ fits s g ∨
      ∃ record, RecoversInactive manager s g record)

/-- Where a recovery of `g` from `s` can be cut off. -/
inductive RecoverPhase (manager : LeanGenerationManagerV1) (s : ProjectState)
    (g : LeanBunGenerationV1) : ProjectState → Prop
  | idle : RecoverPhase manager s g s
  | published (record : TransactionRecord) (hactive : RecoversActive manager s g record) :
      RecoverPhase manager s g (settle s g record .Published)
  | retained (record : TransactionRecord) (hactive : RecoversActive manager s g record) (text : Str)
      (hretains : Retains s g text) :
      RecoverPhase manager s g { settle s g record .Published with retained := some text }
  | completed (record : TransactionRecord) (hactive : RecoversActive manager s g record) (text : Str)
      (hretains : Retains s g text) (hsmall : byte_len text ≤ MAX_RECORD_BYTES)
      (hlock : s.lock = none ∨ s.lock = some (lock_bytes g)) :
      RecoverPhase manager s g
        { settle s g record .Published with retained := some text, lock := none }
  | failed (record : TransactionRecord) (hinactive : RecoversInactive manager s g record)
      (temps : List Str) (htemps : ∀ text ∈ temps, text ∈ s.active_temps) :
      RecoverPhase manager s g { settle s g record .Failed with active_temps := temps }
  | abandoned (record : TransactionRecord) (hinactive : RecoversInactive manager s g record)
      (hlock : s.lock = none ∨ s.lock = some (lock_bytes g)) :
      RecoverPhase manager s g { settle s g record .Failed with
        active_temps := other_temps g s.active_temps, lock := none }

theorem names_generation_transaction {record : ActiveRecord} (h : names_generation record g = true) :
    record.transaction = g.transaction_id ∧ record.generation = g.identity ∧
      path_eq record.path g.generation_root = true := by
  unfold names_generation at h
  simp only [Bool.and_eq_true, decide_eq_true_eq] at h
  exact ⟨h.1.1, h.1.2, h.2⟩

/-- The two kinds of evidence exclude each other. -/
theorem RecoversActive.not_inactive {record other : TransactionRecord}
    (h : RecoversActive manager s g record) : ¬RecoversInactive manager s g other := by
  intro hother
  obtain ⟨observed, hread, hnames⟩ := h.active
  obtain ⟨active, hactive, hne⟩ := hother.active
  rw [hread] at hactive
  exact hne observed (Except.ok.inj hactive).symm (names_generation_transaction hnames).1

theorem RecoversActive.record_eq {record other : TransactionRecord}
    (h : RecoversActive manager s g record)
    (hother : s.transactions g.transaction_id = some (transaction_bytes other)) : record = other := by
  rw [h.transaction] at hother
  exact transaction_bytes_injective (Option.some.inj hother)

/-- The result of a recovery. -/
def Recovered (manager : LeanGenerationManagerV1) (s : ProjectState) (g : LeanBunGenerationV1)
    (result : LeanGenerationRecoveryV1) (s' : ProjectState) : Prop :=
  (s.lock = none ∨ s.lock = some (lock_bytes g)) ∧
    ((∃ record text, RecoversActive manager s g record ∧ Retains s g text ∧
      byte_len text ≤ MAX_RECORD_BYTES ∧
      s' = { settle s g record .Published with retained := some text, lock := none } ∧
      result = ⟨.Published, true, s.lock.isSome⟩) ∨
    ∃ record, RecoversInactive manager s g record ∧
      s' = { settle s g record .Failed with
        active_temps := other_temps g s.active_temps, lock := none } ∧
      result = ⟨.Failed, false, s.lock.isSome⟩)

/-- The last step of a recovery: the lock that is in the way is someone else's, or it
is gone afterwards. -/
theorem release_recovered {I : ProjectState → Prop} {Q : LeanGenerationRecoveryV1 → ProjectState → Prop}
    {E : LeanGenerationError → ProjectState → Prop} {state : LeanGenerationStateV1} {active : Bool}
    {s' : ProjectState} (hs' : I s') (hfree : s'.lock = none ∨ s'.lock = some (lock_bytes g) →
      I { s' with lock := none } ∧ Q ⟨state, active, s'.lock.isSome⟩ { s' with lock := none })
    (hother : ¬(s'.lock = none ∨ s'.lock = some (lock_bytes g)) → ∀ e, E e s') :
    Prog.Holds I Q E (do
      let released ← release_lock_if_owned g
      return ⟨state, active, released⟩) s' := by
  apply Prog.holds_bind.mpr
  apply Holds.release_lock_if_owned hs'
  · intro hnone
    have hdone := hfree (Or.inl hnone)
    have hsame : ({ s' with lock := none } : ProjectState) = s' := by
      rw [← hnone]
    rw [hsame, hnone] at hdone
    exact Prog.holds_pure.mpr ⟨hs', hdone.2⟩
  · intro hown
    have hdone := hfree (Or.inr hown)
    rw [hown] at hdone
    exact ⟨hdone.1, Prog.holds_pure.mpr ⟨hdone.1, hdone.2⟩⟩
  · intro text htext hne e
    refine hother ?_ e
    rintro (h | h)
    · rw [htext] at h
      cases h
    · rw [htext] at h
      exact hne (Option.some.inj h)

/-- The rest of a recovery once the transaction is published. -/
theorem update_recovered {record : TransactionRecord} (hactive : RecoversActive manager s g record) :
    Prog.Holds (RecoverPhase manager s g) (Recovered manager s g)
      (fun _ _ => ¬Recoverable manager s g) (do
        update_retained g
        let released ← release_lock_if_owned g
        return ⟨.Published, true, released⟩) (settle s g record .Published) := by
  have hpublished : RecoverPhase manager s g (settle s g record .Published) := .published record hactive
  have hrefuted : ¬fits s g → ¬Recoverable manager s g := by
    rintro hfits ⟨-, ⟨-, h⟩ | ⟨other, hother⟩⟩
    · exact hfits h
    · exact hactive.not_inactive hother
  apply Prog.Holds.bind (J := fun _ s' => ∃ text, Retains s g text ∧
    byte_len text ≤ MAX_RECORD_BYTES ∧
    s' = { settle s g record .Published with retained := some text })
  · apply Holds.update_retained hpublished
    · intro hunread _
      exact hrefuted fun ⟨pairs, hpairs, _⟩ => hunread pairs hpairs
    · intro text htext
      refine ⟨.retained record hactive text htext, ?_, fun hsmall => ⟨text, htext, hsmall, rfl⟩⟩
      intro hlarge _
      refine hrefuted fun ⟨pairs, hpairs, hle⟩ => ?_
      obtain ⟨read, hread, rfl⟩ := htext
      rw [show read_retained s = .ok read from hread] at hpairs
      rw [Except.ok.inj hpairs] at hlarge
      omega
  rintro _ _ hretained ⟨text, htext, hsmall, rfl⟩
  apply release_recovered hretained
  · intro hlock
    refine ⟨.completed record hactive text htext hsmall hlock, ?_⟩
    exact ⟨hlock, Or.inl ⟨record, text, hactive, htext, hsmall, rfl, rfl⟩⟩
  · intro hlock _ hrecoverable
    exact hlock hrecoverable.1

/-- A recovery of the generation that is active. -/
theorem recover_active_phases (hlocation : valid_location manager g = true)
    (hactive : ∃ observed, read_active s = .ok (some observed) ∧ names_generation observed g = true)
    {transaction : Option TransactionRecord}
    (htransaction : transaction = none ∧ s.transactions g.transaction_id = none ∨
      ∃ record, transaction = some record ∧
        s.transactions g.transaction_id = some (transaction_bytes record)) :
    Prog.Holds (RecoverPhase manager s g) (Recovered manager s g)
      (fun _ _ => ¬Recoverable manager s g) (recover_active g transaction) s := by
  have hidle : RecoverPhase manager s g s := .idle
  -- the active record leaves no evidence for giving up
  have hnot : (∀ record, ¬RecoversActive manager s g record) → ¬Recoverable manager s g := by
    rintro h ⟨-, ⟨⟨record, hrecord⟩, -⟩ | ⟨other, hother⟩⟩
    · exact h record hrecord
    · obtain ⟨observed, hobserved, hnames⟩ := hactive
      obtain ⟨active, hactive', hne⟩ := hother.active
      rw [hobserved] at hactive'
      exact hne observed (Except.ok.inj hactive').symm (names_generation_transaction hnames).1
  have hrefused : (∀ record, transaction = some record → record.state ≠ .Published ∧
      record.state ≠ .Verified) → ¬Recoverable manager s g := by
    intro h
    refine hnot fun record hrecord => ?_
    rcases htransaction with ⟨-, hnone⟩ | ⟨other, hother, hsome⟩
    · rw [hrecord.transaction] at hnone
      cases hnone
    · rw [← hrecord.record_eq hsome] at hother
      rcases hrecord.state with hstate | ⟨hstate, -⟩
      · exact (h record hother).1 hstate
      · exact (h record hother).2 hstate
  unfold recover_active
  apply Holds.verify_generation_bind hidle
  · intro hverified _
    exact hnot fun record hrecord => hverified hrecord.verified
  intro hverified
  have hcheck : ∀ (e : LeanGenerationError) (f : Unit → ManagerProg LeanGenerationRecoveryV1),
      ¬Recoverable manager s g → Prog.Holds (RecoverPhase manager s g) (Recovered manager s g)
        (fun _ _ => ¬Recoverable manager s g) (check (.error e) >>= f) s :=
    fun e f h => Holds.check_bind hidle (fun _ _ => h) fun h => by cases h
  rcases htransaction with ⟨rfl, -⟩ | ⟨record, rfl, hsome⟩
  · exact hcheck _ _ (hrefused fun _ h => by cases h)
  have hrefused : record.state ≠ .Published → record.state ≠ .Verified →
      ¬Recoverable manager s g := fun h h' => hrefused fun _ heq => by
    rw [← Option.some.inj heq]
    exact ⟨h, h'⟩
  obtain ⟨transaction, project, generation, state⟩ := record
  cases state with
  | Published =>
    have hevidence : RecoversActive manager s g ⟨transaction, project, generation, .Published⟩ :=
      ⟨hlocation, hactive, hverified, hsome, Or.inl rfl⟩
    have hsame : settle s g ⟨transaction, project, generation, .Published⟩ .Published = s := by
      unfold settle ProjectState.set_transaction
      rw [← hsome, Function.update_eq_self]
    have hrest := update_recovered hevidence
    rw [hsame] at hrest
    exact hrest
  | Verified =>
    apply Prog.Holds.bind (J := fun _ s' =>
      RecoversActive manager s g ⟨transaction, project, generation, .Verified⟩ ∧
      s' = settle s g ⟨transaction, project, generation, .Verified⟩ .Published)
    · apply Holds.transition hsome hidle
      · intro hchecked _
        refine hnot fun record hrecord => ?_
        rw [hrecord.record_eq hsome] at hrecord
        rcases hrecord.state with hstate | ⟨-, hproject, hgeneration⟩
        · cases hstate
        · refine hchecked ?_
          show (if _ then _ else if _ then _ else _) = _
          rw [if_neg (by rintro (h | h); exacts [h hproject, h hgeneration]), if_neg (by simp [valid_transition])]
      · intro hproject hgeneration _
        have hevidence : RecoversActive manager s g ⟨transaction, project, generation, .Verified⟩ :=
          ⟨hlocation, hactive, hverified, hsome, Or.inr ⟨rfl, hproject, hgeneration⟩⟩
        exact ⟨.published _ hevidence, hevidence, rfl⟩
    rintro _ _ - ⟨hevidence, rfl⟩
    exact update_recovered hevidence
  | Preparing => exact hcheck _ _ (hrefused (by simp) (by simp))
  | Materialized => exact hcheck _ _ (hrefused (by simp) (by simp))
  | Failed => exact hcheck _ _ (hrefused (by simp) (by simp))

theorem RecoversInactive.record_eq {record other : TransactionRecord}
    (h : RecoversInactive manager s g record)
    (hother : s.transactions g.transaction_id = some (transaction_bytes other)) : record = other := by
  rcases h.transaction with ⟨hnone, -⟩ | hsome
  · rw [hother] at hnone
    cases hnone
  · rw [hother] at hsome
    exact (transaction_bytes_injective (Option.some.inj hsome)).symm

/-- The rest of a recovery once the transaction has failed. -/
theorem abandon_recovered {record : TransactionRecord}
    (hinactive : RecoversInactive manager s g record)
    (htemps : ∀ text ∈ s.active_temps, byte_len text ≤ MAX_RECORD_BYTES) :
    Prog.Holds (RecoverPhase manager s g) (Recovered manager s g)
      (fun _ _ => ¬Recoverable manager s g) (do
        remove_abandoned_active_temp g
        let released ← release_lock_if_owned g
        return ⟨.Failed, false, released⟩) (settle s g record .Failed) := by
  apply Prog.Holds.bind (J := fun _ s' =>
    s' = { settle s g record .Failed with active_temps := other_temps g s.active_temps })
  · have hsmall : ∀ text ∈ (settle s g record .Failed).active_temps,
        byte_len text ≤ MAX_RECORD_BYTES := htemps
    apply Holds.remove_abandoned_active_temp hsmall
    · exact fun temps hsub => .failed record hinactive temps hsub
    · rfl
  rintro _ _ hfailed rfl
  apply release_recovered hfailed
  · intro hlock
    exact ⟨.abandoned record hinactive hlock, hlock, Or.inr ⟨record, hinactive, rfl, rfl⟩⟩
  · intro hlock _ hrecoverable
    exact hlock hrecoverable.1

/-- A recovery of a generation that is not active. -/
theorem recover_inactive_phases (hlocation : valid_location manager g = true)
    (hinactive : ∃ active, read_active s = .ok active ∧
      ∀ observed, active = some observed → observed.transaction ≠ g.transaction_id)
    {transaction : Option TransactionRecord}
    (htransaction : transaction = none ∧ s.transactions g.transaction_id = none ∨
      ∃ record, transaction = some record ∧
        s.transactions g.transaction_id = some (transaction_bytes record))
    (htemps : ∀ text ∈ s.active_temps, byte_len text ≤ MAX_RECORD_BYTES) :
    Prog.Holds (RecoverPhase manager s g) (Recovered manager s g)
      (fun _ _ => ¬Recoverable manager s g) (recover_inactive g transaction) s := by
  have hidle : RecoverPhase manager s g s := .idle
  -- no active record supports the publication
  have hnot : (∀ record, ¬RecoversInactive manager s g record) → ¬Recoverable manager s g := by
    rintro h ⟨-, ⟨⟨record, hrecord⟩, -⟩ | ⟨other, hother⟩⟩
    · obtain ⟨observed, hobserved, hnames⟩ := hrecord.active
      obtain ⟨active, hactive, hne⟩ := hinactive
      rw [hobserved] at hactive
      exact hne observed (Except.ok.inj hactive).symm (names_generation_transaction hnames).1
    · exact h other hother
  unfold recover_inactive
  rcases htransaction with ⟨rfl, hnone⟩ | ⟨record, rfl, hsome⟩
  · have hevidence : RecoversInactive manager s g (transaction_record g .Preparing) :=
      ⟨hlocation, hinactive, Or.inl ⟨hnone, rfl⟩, Or.inr ⟨by simp [transaction_record], rfl, rfl⟩⟩
    apply Prog.Holds.bind (J := fun _ s' => s' = settle s g (transaction_record g .Preparing) .Failed)
    · apply Holds.create_transaction_record hidle
      · exact fun hexists => absurd hnone hexists
      · exact fun _ => ⟨.failed _ hevidence s.active_temps fun _ h => h, rfl⟩
    rintro _ _ - rfl
    exact abandon_recovered hevidence htemps
  -- a transaction that has not ended yet fails now
  have htransition : record.state ≠ .Published → valid_transition record.state .Failed = true →
      Prog.Holds (RecoverPhase manager s g) (Recovered manager s g)
        (fun _ _ => ¬Recoverable manager s g) (do
          transition g .Failed
          remove_abandoned_active_temp g
          let released ← release_lock_if_owned g
          return ⟨.Failed, false, released⟩) s := by
    intro hunpublished hvalid
    have hstate : record.state ≠ .Failed := by
      intro hfailed
      rw [hfailed] at hvalid
      cases hvalid
    apply Prog.Holds.bind (J := fun _ s' => RecoversInactive manager s g record ∧
      s' = settle s g record .Failed)
    · apply Holds.transition hsome hidle
      · intro hchecked _
        refine hnot fun other hother => ?_
        rw [hother.record_eq hsome] at hother
        rcases hother.state with hfailed | ⟨-, hproject, hgeneration⟩
        · exact hstate hfailed
        · refine hchecked ?_
          show (if _ then _ else if _ then _ else _) = _
          rw [if_neg (by rintro (h | h); exacts [h hproject, h hgeneration]),
            if_neg (by rw [hvalid]; simp)]
      · intro hproject hgeneration _
        have hevidence : RecoversInactive manager s g record :=
          ⟨hlocation, hinactive, Or.inr hsome, Or.inr ⟨hunpublished, hproject, hgeneration⟩⟩
        exact ⟨.failed record hevidence s.active_temps fun _ h => h, hevidence, rfl⟩
    rintro _ _ - ⟨hevidence, rfl⟩
    exact abandon_recovered hevidence htemps
  obtain ⟨transaction, project, generation, state⟩ := record
  cases state with
  | Published =>
    apply Holds.check_bind hidle
    · intro e _
      refine hnot fun other hother => ?_
      rw [hother.record_eq hsome] at hother
      rcases hother.state with hfailed | ⟨hunpublished, -⟩
      · cases hfailed
      · exact hunpublished rfl
    · intro h
      cases h
  | Failed =>
    have hevidence : RecoversInactive manager s g ⟨transaction, project, generation, .Failed⟩ :=
      ⟨hlocation, hinactive, Or.inr hsome, Or.inl rfl⟩
    have hsame : settle s g ⟨transaction, project, generation, .Failed⟩ .Failed = s := by
      unfold settle ProjectState.set_transaction
      rw [← hsome, Function.update_eq_self]
    have hrest := abandon_recovered hevidence htemps
    rw [hsame] at hrest
    exact hrest
  | Preparing => exact htransition (by simp) rfl
  | Materialized => exact htransition (by simp) rfl
  | Verified => exact htransition (by simp) rfl

/-- The checks in front of a recovery pass, with these two records read. -/
structure Admitted (manager : LeanGenerationManagerV1) (s : ProjectState) (g : LeanBunGenerationV1)
    (read : Option TransactionRecord) (named : Option ActiveRecord) : Prop where
  location : valid_location manager g = true
  transaction : read_transaction s g.transaction_id = .ok read
  active : read_active s = .ok named
  exact : ∀ observed, named = some observed → observed.transaction = g.transaction_id →
    names_generation observed g = true

/-- The active record of an admitted recovery names the generation or another
transaction. -/
theorem Admitted.branch {transaction : Option TransactionRecord} {active : Option ActiveRecord}
    (h : Admitted manager s g transaction active) :
    (active.any (fun record => names_generation record g) = true ∧
      ∃ observed, read_active s = .ok (some observed) ∧ names_generation observed g = true) ∨
    (active.any (fun record => names_generation record g) = false ∧
      ∃ active, read_active s = .ok active ∧
        ∀ observed, active = some observed → observed.transaction ≠ g.transaction_id) := by
  have hread := h.active
  cases hactive : active with
  | none =>
    rw [hactive] at hread
    exact Or.inr ⟨rfl, none, hread, fun _ heq => by cases heq⟩
  | some observed =>
    rw [hactive] at hread
    show (names_generation observed g = true ∧ _) ∨ (names_generation observed g = false ∧ _)
    by_cases hnames : names_generation observed g = true
    · exact Or.inl ⟨hnames, observed, hread, hnames⟩
    · refine Or.inr ⟨Bool.not_eq_true _ ▸ hnames, some observed, hread, fun other heq htid => ?_⟩
      rw [← Option.some.inj heq] at htid
      exact hnames (h.exact observed hactive htid)

/-- Either kind of evidence passes the checks. -/
theorem RecoversActive.admitted {record : TransactionRecord} (h : RecoversActive manager s g record) :
    ∃ transaction active, Admitted manager s g transaction active := by
  obtain ⟨observed, hread, hnames⟩ := h.active
  refine ⟨some record, some observed, h.location, read_transaction_bytes h.transaction, hread, ?_⟩
  intro other heq _
  rw [← Option.some.inj heq]
  exact hnames

theorem RecoversInactive.admitted {record : TransactionRecord}
    (h : RecoversInactive manager s g record) :
    ∃ transaction active, Admitted manager s g transaction active := by
  obtain ⟨active, hread, hne⟩ := h.active
  have hexact : ∀ observed, active = some observed → observed.transaction = g.transaction_id →
      names_generation observed g = true := fun observed heq htid => absurd htid (hne observed heq)
  rcases h.transaction with ⟨hnone, -⟩ | hsome
  · exact ⟨none, active, h.location, read_transaction_none hnone, hread, hexact⟩
  · exact ⟨some record, active, h.location, read_transaction_bytes hsome, hread, hexact⟩

/-- **The checks of a recovery.** They change nothing, and let the recovery go on only
when it is admitted. -/
theorem Holds.recover {I : ProjectState → Prop} {Q : LeanGenerationRecoveryV1 → ProjectState → Prop}
    {E : LeanGenerationError → ProjectState → Prop} (hs : I s)
    (hrefused : (∀ transaction active, ¬Admitted manager s g transaction active) → ∀ e, E e s)
    (hadmitted : ∀ transaction active, Admitted manager s g transaction active →
      Prog.Holds I Q E (if active.any (fun record => names_generation record g) = true
        then recover_active g transaction else recover_inactive g transaction) s) :
    Prog.Holds I Q E (recover manager g) s := by
  unfold LeanBun.Generation.recover
  apply Holds.check_bind hs
  · intro e he
    refine hrefused (fun transaction active h => ?_) e
    rw [if_pos h.location] at he
    cases he
  intro hlocation
  have hlocation : valid_location manager g = true := by
    by_contra hwrong
    rw [if_neg hwrong] at hlocation
    cases hlocation
  apply Prog.Holds.read_bind hs
  · intro e he
    refine hrefused (fun transaction active h => ?_) e
    rw [h.transaction] at he
    cases he
  intro transaction htransaction
  apply Prog.Holds.read_bind hs
  · intro e he
    refine hrefused (fun transaction active h => ?_) e
    rw [h.active] at he
    cases he
  intro active hactive
  apply Holds.check_bind hs
  · intro e he
    refine hrefused (fun _ other h => ?_) e
    -- the record names the transaction with other evidence
    have hother : active = other := Except.ok.inj (hactive.symm.trans h.active)
    cases active with
    | none => cases he
    | some observed =>
      by_cases htid : observed.transaction = g.transaction_id
      · have hnames := h.exact observed hother.symm htid
        rw [Option.any_some, Option.any_some, hnames, Bool.not_true, Bool.and_false,
          if_neg Bool.false_ne_true] at he
        cases he
      · rw [Option.any_some, decide_eq_false htid, Bool.false_and, if_neg Bool.false_ne_true] at he
        cases he
  intro hcheck
  refine hadmitted transaction active ⟨hlocation, htransaction, hactive, ?_⟩
  rintro observed rfl htid
  by_contra hnames
  rw [Bool.not_eq_true] at hnames
  rw [Option.any_some, Option.any_some, decide_eq_true htid, hnames, Bool.not_false, Bool.and_true,
    if_pos (show true = true from rfl)] at hcheck
  cases hcheck

/-- **Recovering.** Wherever a recovery is cut off, it is in one of its phases. It
ends as its evidence says, and fails only without evidence or before someone
else's lock. -/
theorem recover_phases
    (htemps : ∀ text ∈ s.active_temps, byte_len text ≤ MAX_RECORD_BYTES) :
    Prog.Holds (RecoverPhase manager s g) (Recovered manager s g)
      (fun _ _ => ¬Recoverable manager s g) (recover manager g) s := by
  apply Holds.recover .idle
  · rintro h - ⟨-, ⟨⟨record, hrecord⟩, -⟩ | ⟨record, hrecord⟩⟩
    · obtain ⟨transaction, active, hadmitted⟩ := hrecord.admitted
      exact h transaction active hadmitted
    · obtain ⟨transaction, active, hadmitted⟩ := hrecord.admitted
      exact h transaction active hadmitted
  intro transaction active h
  have htext := read_transaction_eq_ok.mp h.transaction
  have htransaction : transaction = none ∧ s.transactions g.transaction_id = none ∨
      ∃ record, transaction = some record ∧
        s.transactions g.transaction_id = some (transaction_bytes record) := by
    cases transaction with
    | none => exact Or.inl ⟨rfl, htext⟩
    | some record => exact Or.inr ⟨record, rfl, htext⟩
  rcases h.branch with ⟨hany, hactive⟩ | ⟨hany, hinactive⟩
  · rw [if_pos hany]
    exact recover_active_phases h.location hactive htransaction
  · rw [if_neg (Bool.not_eq_true _ ▸ hany)]
    exact recover_inactive_phases h.location hinactive htransaction htemps

/-- A recoverable generation is recovered. -/
theorem recover_of_recoverable
    (htemps : ∀ text ∈ s.active_temps, byte_len text ≤ MAX_RECORD_BYTES)
    (h : Recoverable manager s g) :
    ∃ result, ((recover manager g).run s).1 = .ok result ∧
      Recovered manager s g result ((recover manager g).run s).2 :=
  (recover_phases htemps).run.resolve_right fun ⟨_, _, hnot⟩ => hnot h

end LeanBun.Generation
