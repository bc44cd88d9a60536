/-
Who can release the project lock.

Whenever the lock is held and no operation is running, some generation of the run
has to be recoverable: its recovery returns and removes the lock. The lock names
one generation, the active record may name another; a rollback that is cut off
between the two leaves a lock that no recovery removes. The invariant holds in
every run that stays clear of this and of the records that outgrow their reader.
-/
import LeanBun.Generation.Recovery

set_option autoImplicit false

namespace LeanBun.Generation

open LeanBun.Lib LeanBun.Core LeanBun.Store

/-! ## Runs and their generations -/

/-- The generations that an operation is about. -/
def ManagerOperation.generations : ManagerOperation → List LeanBunGenerationV1
  | .publish _ generation _ => [generation]
  | .recover generation => [generation]
  | .rollback current retained => [current, retained]

/-- What an operation that takes the free lock, and is cut off before it has released
it, leaves for a recovery. -/
def ManagerOperation.leaves_recoverable (manager : LeanGenerationManagerV1) (s : ProjectState) (n : ℕ) :
    ManagerOperation → Prop
  | .publish objects generation fault =>
    s.lock = none → ((Generation.publish manager objects generation fault).crash n s).lock ≠ none →
      ((∃ record, read_transaction s generation.transaction_id = .ok (some record) ∧
          record.state = .Published) → Active manager s generation ∧ fits s generation) ∧
        (.ActiveRename ∈ (Generation.publish manager objects generation fault).trace n s →
          plain_path manager.state_root = true ∧ fits s generation)
  | .recover _ => True
  | .rollback current retained =>
    s.lock = none → ((rollback_active_generation manager current retained).crash n s).lock ≠ none →
      .ActiveRename ∉ (rollback_active_generation manager current retained).trace n s ∧
        fits s current

/-- The runs all of whose operations leave the lock recoverable, with the generations
that they are about. -/
inductive Run (manager : LeanGenerationManagerV1) : List LeanBunGenerationV1 → ProjectState → Prop
  | initial : Run manager [] ProjectState.initial
  | step {involved : List LeanBunGenerationV1} {s : ProjectState} (hrun : Run manager involved s)
      (operation : ManagerOperation) (n : ℕ) (hleaves : operation.leaves_recoverable manager s n) :
      Run manager (involved ++ operation.generations) ((operation.program manager).crash n s)

/-- No two generations share an identity. -/
def Distinct (involved : List LeanBunGenerationV1) : Prop :=
  ∀ g ∈ involved, ∀ g' ∈ involved, g.identity = g'.identity → g = g'

variable {manager : LeanGenerationManagerV1} {s s' : ProjectState} {g other : LeanBunGenerationV1}
  {involved : List LeanBunGenerationV1}

/-! ## Evidence that stays -/

theorem read_active_congr (h : s'.active = s.active) : read_active s' = read_active s := by
  unfold read_active
  rw [h]

theorem fits_congr (h : s'.retained = s.retained) (hfits : fits s g) : fits s' g := by
  obtain ⟨pairs, hpairs, hsmall⟩ := hfits
  refine ⟨pairs, ?_, hsmall⟩
  unfold read_retained at hpairs ⊢
  rw [h]
  exact hpairs

theorem RecoversActive.transfer {record : TransactionRecord} (h : RecoversActive manager s g record)
    (hactive : s'.active = s.active)
    (hgenerations : s'.generations g.transaction_id = s.generations g.transaction_id)
    (htransactions : s'.transactions g.transaction_id = s.transactions g.transaction_id) :
    RecoversActive manager s' g record where
  location := h.location
  active := by
    rw [read_active_congr hactive]
    exact h.active
  verified := by
    rw [hgenerations]
    exact h.verified
  transaction := htransactions.trans h.transaction
  state := h.state

theorem RecoversInactive.transfer {record : TransactionRecord}
    (h : RecoversInactive manager s g record) (hactive : s'.active = s.active)
    (htransactions : s'.transactions g.transaction_id = s.transactions g.transaction_id) :
    RecoversInactive manager s' g record where
  location := h.location
  active := by
    rw [read_active_congr hactive]
    exact h.active
  transaction := by
    rw [htransactions]
    exact h.transaction
  state := h.state

/-- A generation whose evidence is complete: only the lock is left. -/
def Evidence (manager : LeanGenerationManagerV1) (s : ProjectState) (g : LeanBunGenerationV1) : Prop :=
  (∃ record, RecoversActive manager s g record) ∧ fits s g ∨
    ∃ record, RecoversInactive manager s g record

/-- What a recovery of one generation does to the evidence of the lock's owner. -/
theorem evidence_recover (hsame : g.identity = other.identity → g = other)
    (hevidence : Evidence manager s g) (hphase : RecoverPhase manager s other s') :
    s'.lock = none ∨ Evidence manager s' g := by
  -- the other record is published: it is the active one
  have hpublish : ∀ {record : TransactionRecord} {retained : Option Str},
      RecoversActive manager s other record →
      (retained = s.retained ∨ ∃ text, Retains s other text ∧ retained = some text) →
      Evidence manager { settle s other record .Published with retained := retained } g := by
    intro record retained hother hretained
    obtain ⟨observed, hread, hnames⟩ := hother.active
    obtain ⟨hid, hidentity, -⟩ := names_generation_transaction hnames
    rcases hevidence with ⟨⟨mine, hmine⟩, hfits⟩ | ⟨mine, hmine⟩
    · obtain ⟨observed', hread', hnames'⟩ := hmine.active
      obtain ⟨-, hidentity', -⟩ := names_generation_transaction hnames'
      rw [hread] at hread'
      rw [← Option.some.inj (Except.ok.inj hread')] at hidentity'
      have hg : g = other := hsame (hidentity'.symm.trans hidentity)
      subst hg
      refine Or.inl ⟨⟨{ record with state := .Published }, hmine.location, hmine.active,
        hmine.verified, Function.update_self .., Or.inl rfl⟩, ?_⟩
      rcases hretained with rfl | ⟨text, htext, rfl⟩
      · exact fits_congr rfl hfits
      · obtain ⟨pairs, hpairs, hsmall⟩ := hfits
        obtain ⟨others, hothers, rfl⟩ := htext
        have hpairs' := hpairs
        rw [hothers] at hpairs'
        rw [← Except.ok.inj hpairs'] at hsmall
        exact (retains_again ⟨others, hothers, rfl⟩ hsmall rfl).1
    · obtain ⟨active, hactive, hne⟩ := hmine.active
      rw [hread] at hactive
      have htid : g.transaction_id ≠ other.transaction_id := fun h =>
        hne observed (Except.ok.inj hactive).symm (hid.trans h.symm)
      exact Or.inr ⟨mine, hmine.transfer rfl (Function.update_of_ne htid ..)⟩
  cases hphase with
  | idle => exact Or.inr hevidence
  | published record hother => exact Or.inr (hpublish hother (Or.inl rfl))
  | retained record hother text htext => exact Or.inr (hpublish hother (Or.inr ⟨text, htext, rfl⟩))
  | completed => exact Or.inl rfl
  | abandoned => exact Or.inl rfl
  | failed record hother temps =>
    refine Or.inr ?_
    by_cases htid : g.transaction_id = other.transaction_id
    · -- the same transaction: it has failed now
      rcases hevidence with ⟨⟨mine, hmine⟩, -⟩ | ⟨mine, hmine⟩
      · obtain ⟨observed, hread, hnames⟩ := hmine.active
        obtain ⟨active, hactive, hne⟩ := hother.active
        rw [hread] at hactive
        exact absurd ((names_generation_transaction hnames).1.trans htid)
          (hne observed (Except.ok.inj hactive).symm)
      · refine Or.inr ⟨{ record with state := .Failed }, hmine.location, hmine.active, Or.inr ?_,
          Or.inl rfl⟩
        show Function.update _ _ _ _ = _
        rw [htid, Function.update_self]
    · have htransactions : (settle s other record .Failed).transactions g.transaction_id =
          s.transactions g.transaction_id := Function.update_of_ne htid ..
      rcases hevidence with ⟨⟨mine, hmine⟩, hfits⟩ | ⟨mine, hmine⟩
      · exact Or.inl ⟨⟨mine, hmine.transfer rfl rfl htransactions⟩, fits_congr rfl hfits⟩
      · exact Or.inr ⟨mine, hmine.transfer rfl htransactions⟩

/-! ## Taking the lock -/

/-- A published transaction is read as such. -/
theorem Consistent.read_published (hs : Consistent manager s) {t : ExecutionId} {text : Str}
    (htext : s.transactions t = some text) : ∃ record, text = transaction_bytes record ∧
      read_transaction s t = .ok (some record) := by
  obtain ⟨record, rfl⟩ := hs.canonical t text htext
  exact ⟨record, rfl, read_transaction_bytes htext⟩

/-- The verified active generation has complete evidence. -/
theorem evidence_active (hs : Consistent manager s) (hactive : Active manager s g)
    (hfits : fits s g) : Evidence manager s g := by
  obtain ⟨hlocation, hnames, ⟨record, hread, -, -, hstate⟩, hverified⟩ := hactive
  cases htext : s.transactions g.transaction_id with
  | none =>
    rw [read_transaction_none htext] at hread
    cases hread
  | some text =>
    obtain ⟨other, rfl, hother⟩ := hs.read_published htext
    rw [hread] at hother
    rw [← Option.some.inj (Except.ok.inj hother)] at htext
    exact Or.inl ⟨⟨record, hlocation, hnames, hverified, htext, Or.inl hstate⟩, hfits⟩

/-- A generation that has not been published yet has evidence for giving it up. -/
theorem evidence_inactive (hs : Consistent manager s) (hfree : s.lock = none)
    (hlocation : valid_location manager g = true)
    (hunpublished : ∀ record, s.transactions g.transaction_id = some (transaction_bytes record) →
      record.state = .Failed) : Evidence manager s g := by
  obtain ⟨active, hread⟩ := hs.readable hfree
  have hother : ∀ observed, active = some observed → observed.transaction ≠ g.transaction_id := by
    rintro observed rfl hid
    rcases hs.read_active hread with ⟨-, hnone⟩ | ⟨actual, htext, hsame, -⟩
    · cases hnone
    · rw [← Option.some.inj hsame] at htext
      obtain ⟨record, hrecord, -, hclean, transaction, htransaction, -, hstate⟩ := hs.active _ htext
      have hsame : record = observed := active_bytes_injective (hclean hfree) hrecord.symm
      rw [hsame, hid] at htransaction
      have hfailed := hunpublished transaction htransaction
      rw [hfailed] at hstate
      rcases hstate with h | h <;> cases h
  cases htext : s.transactions g.transaction_id with
  | none =>
    exact Or.inr ⟨transaction_record g .Preparing, hlocation, ⟨active, hread, hother⟩,
      Or.inl ⟨htext, rfl⟩, Or.inr ⟨by simp [transaction_record], rfl, rfl⟩⟩
  | some text =>
    obtain ⟨record, rfl⟩ := hs.canonical _ text htext
    exact Or.inr ⟨record, hlocation, ⟨active, hread, hother⟩, Or.inr htext,
      Or.inl (hunpublished record htext)⟩

/-- A publication that stops with the lock held has evidence for its generation. -/
theorem evidence_publish (hs : Consistent manager s) (hfree : s.lock = none)
    (hphase : PublishPhase manager s g s')
    (hpublished : (∃ record, read_transaction s g.transaction_id = .ok (some record) ∧
      record.state = .Published) → Active manager s g ∧ fits s g)
    (hrenamed : s'.active ≠ s.active → plain_path manager.state_root = true ∧ fits s g) :
    s'.lock = none ∨ s'.lock = some (lock_bytes g) ∧ Evidence manager s' g := by
  -- the rename shows, because a fresh generation is not the active one
  have hafter : ∀ (state : LeanGenerationStateV1) (directory : Option GenerationDirectory)
      (retained : Option Str), valid_location manager g = true →
      s.transactions g.transaction_id = none → verify_directory g directory = .ok () →
      (state = .Verified ∨ state = .Published) →
      s' = renamed s g state directory retained (some (lock_bytes g)) →
      (retained = s.retained ∨ ∃ text, Retains s g text ∧ retained = some text) →
      Evidence manager s' g := by
    rintro state directory retained hlocation hfresh hverified hstate rfl hretained
    obtain ⟨hplain, hfits⟩ := hrenamed fun h => fresh_not_active hs hfree hfresh h.symm rfl
    have hclean : clean_value g.generation_root = true := by
      rw [clean_generation_root hlocation, hplain]
    refine Or.inl ⟨⟨transaction_record g state, hlocation, ⟨active_record g, ?_, ?_⟩, ?_,
      Function.update_self .., hstate.symm.imp (fun h => h) fun h => ⟨h, rfl, rfl⟩⟩, ?_⟩
    · exact (read_active_bytes rfl).mpr ⟨rfl, hclean, active_text_small g⟩
    · unfold names_generation active_record
      simp
    · rw [show (renamed s g state directory retained (some (lock_bytes g))).generations
        g.transaction_id = directory from Function.update_self ..]
      exact hverified
    · rcases hretained with rfl | ⟨text, ⟨others, hothers, rfl⟩, rfl⟩
      · exact fits_congr rfl hfits
      · obtain ⟨pairs, hpairs, hsmall⟩ := hfits
        have hpairs' := hpairs
        rw [hothers] at hpairs'
        rw [← Except.ok.inj hpairs'] at hsmall
        exact (retains_again ⟨others, hothers, rfl⟩ hsmall rfl).1
  cases hphase with
  | idle => exact Or.inl hfree
  | locked hlocation _ =>
    refine Or.inr ⟨rfl, ?_⟩
    by_cases hdone : ∃ record, read_transaction s g.transaction_id = .ok (some record) ∧
        record.state = .Published
    · obtain ⟨hactive, hfits⟩ := hpublished hdone
      rcases evidence_active hs hactive hfits with ⟨⟨record, hrecord⟩, -⟩ | ⟨record, hrecord⟩
      · exact Or.inl ⟨⟨record, hrecord.transfer rfl rfl rfl⟩, fits_congr rfl hfits⟩
      · exact Or.inr ⟨record, hrecord.transfer rfl rfl⟩
    · have hunpublished : ∀ record, s.transactions g.transaction_id =
          some (transaction_bytes record) → record.state = .Failed := by
        intro record hrecord
        rcases hs.ended hfree hrecord with h | h
        · exact absurd ⟨record, read_transaction_bytes hrecord, h⟩ hdone
        · exact h
      rcases evidence_inactive hs hfree hlocation hunpublished with
        ⟨⟨record, hrecord⟩, hfits⟩ | ⟨record, hrecord⟩
      · exact Or.inl ⟨⟨record, hrecord.transfer rfl rfl rfl⟩, fits_congr rfl hfits⟩
      · exact Or.inr ⟨record, hrecord.transfer rfl rfl⟩
  | staged hlocation _ hfresh state directory temps hstate _ =>
    refine Or.inr ⟨rfl, ?_⟩
    have hunpublished : ∀ record, s.transactions g.transaction_id =
        some (transaction_bytes record) → record.state = .Failed := by
      intro record hrecord
      rw [hfresh] at hrecord
      cases hrecord
    have hne : state ≠ .Published := by
      rintro rfl
      rcases hstate with h | h | h <;> cases h
    rcases evidence_inactive hs hfree hlocation hunpublished with
      ⟨⟨record, hrecord⟩, -⟩ | ⟨record, hrecord⟩
    · have hnone := hrecord.transaction
      rw [hfresh] at hnone
      cases hnone
    · exact Or.inr ⟨transaction_record g state, hlocation, hrecord.active,
        Or.inr (Function.update_self ..), Or.inr ⟨hne, rfl, rfl⟩⟩
  | activated hlocation _ hfresh state directory hstate hverified =>
    exact Or.inr ⟨rfl, hafter state directory _ hlocation hfresh hverified
      (hstate.imp (fun h => h) fun h => h.1) rfl (Or.inl rfl)⟩
  | retained hlocation _ hfresh directory text _ hverified hretains =>
    exact Or.inr ⟨rfl, hafter .Published directory _ hlocation hfresh hverified (Or.inr rfl) rfl
      (Or.inr ⟨text, hretains, rfl⟩)⟩
  | released => exact Or.inl rfl

/-! ## Every run -/

/-- The owner of the lock is a generation of the run, and it is recoverable. -/
def Owned (manager : LeanGenerationManagerV1) (involved : List LeanBunGenerationV1) (s : ProjectState) :
    Prop :=
  s.lock = none ∨ ∃ g ∈ involved, s.lock = some (lock_bytes g) ∧ Evidence manager s g

/-- A step from a state whose lock is held: only a recovery changes anything. -/
theorem owned_held (hs : Consistent manager s) (hevidence : Evidence manager s g)
    (hlock : s.lock = some (lock_bytes g)) (hg : g ∈ involved) (operation : ManagerOperation) (n : ℕ)
    (hdistinct : Distinct (involved ++ operation.generations)) :
    Owned manager involved ((operation.program manager).crash n s) := by
  have hsame : Owned manager involved s := Or.inr ⟨g, hg, hlock, hevidence⟩
  have hheld : ∀ {P : Prop}, s.lock = none → P := by
    intro P hnone
    rw [hlock] at hnone
    cases hnone
  cases operation with
  | publish objects other fault =>
    have hphase := publish_crash manager s objects other fault n
    unfold ManagerOperation.program
    rw [Prog.crash_bind_pure]
    generalize (publish manager objects other fault).crash n s = s' at hphase ⊢
    cases hphase with
    | idle => exact hsame
    | locked _ hfree => exact hheld hfree
    | staged _ hfree => exact hheld hfree
    | activated _ hfree => exact hheld hfree
    | retained _ hfree => exact hheld hfree
    | released _ hfree => exact hheld hfree
  | recover other =>
    have hphase := recover_crash hs other n
    unfold ManagerOperation.program
    rw [Prog.crash_bind_pure]
    generalize (recover manager other).crash n s = s' at hphase ⊢
    have hlock' : s'.lock = none ∨ s'.lock = some (lock_bytes g) := by
      cases hphase with
      | completed => exact Or.inl rfl
      | abandoned => exact Or.inl rfl
      | _ => exact Or.inr hlock
    rcases hlock' with hfree | hlock'
    · exact Or.inl hfree
    · rcases evidence_recover (hdistinct g (List.mem_append_left _ hg) other
        (List.mem_append_right _ (List.mem_singleton_self _))) hevidence hphase with hfree | hafter
      · exact Or.inl hfree
      · exact Or.inr ⟨g, hg, hlock', hafter⟩
  | rollback current retained =>
    have hphase := rollback_crash hs current retained n
    unfold ManagerOperation.program
    generalize (rollback_active_generation manager current retained).crash n s = s' at hphase ⊢
    cases hphase with
    | idle => exact hsame
    | locked hfree => exact hheld hfree
    | renamed hfree => exact hheld hfree

/-- A step from a state whose lock is free. -/
theorem owned_free (hs : Consistent manager s) (hfree : s.lock = none) (operation : ManagerOperation)
    (n : ℕ) (hleaves : operation.leaves_recoverable manager s n) :
    Owned manager operation.generations ((operation.program manager).crash n s) := by
  cases operation with
  | publish objects g fault =>
    unfold ManagerOperation.program
    rw [Prog.crash_bind_pure]
    by_cases hheld : ((publish manager objects g fault).crash n s).lock = none
    · exact Or.inl hheld
    obtain ⟨hpublished, hrenamed⟩ := hleaves hfree hheld
    have htrace := publish_active_trace manager s objects g fault n
    have hshown : ((publish manager objects g fault).crash n s).active ≠ s.active →
        .ActiveRename ∈ (publish manager objects g fault).trace n s := by
      intro hne
      by_contra hnot
      rw [if_neg hnot] at htrace
      exact hne htrace
    rcases evidence_publish hs hfree (publish_crash manager s objects g fault n) hpublished
      (fun hne => hrenamed (hshown hne)) with hnone | hevidence
    · exact Or.inl hnone
    · exact Or.inr ⟨g, List.mem_singleton_self _, hevidence⟩
  | recover g =>
    have hphase := recover_crash hs g n
    unfold ManagerOperation.program
    rw [Prog.crash_bind_pure]
    refine Or.inl ?_
    generalize (recover manager g).crash n s = s' at hphase ⊢
    cases hphase with
    | completed => rfl
    | abandoned => rfl
    | _ => exact hfree
  | rollback current retained =>
    have hphase := rollback_crash hs current retained n
    have htrace := rollback_active_trace manager s current retained n
    unfold ManagerOperation.program
    by_cases hheld : ((rollback_active_generation manager current retained).crash n s).lock = none
    · exact Or.inl hheld
    obtain ⟨hunrenamed, hfits⟩ := hleaves hfree hheld
    rw [if_neg hunrenamed] at htrace
    generalize (rollback_active_generation manager current retained).crash n s = s' at *
    cases hphase with
    | idle => exact absurd hfree hheld
    | locked _ hcurrent =>
      refine Or.inr ⟨current, List.mem_cons_self, rfl, ?_⟩
      rcases evidence_active hs hcurrent hfits with ⟨⟨record, hrecord⟩, -⟩ | ⟨record, hrecord⟩
      · exact Or.inl ⟨⟨record, hrecord.transfer rfl rfl rfl⟩, fits_congr rfl hfits⟩
      · exact Or.inr ⟨record, hrecord.transfer rfl rfl⟩
    | renamed _ hcurrent _ hlocation hdistinct =>
      -- the active record is the current generation's, so the rename would show
      obtain ⟨-, ⟨observed, hread, hnames⟩, -⟩ := hcurrent
      rcases hs.read_active hread with ⟨-, hnone⟩ | ⟨actual, hactual, hsame, hclean⟩
      · cases hnone
      · rw [hactual] at htrace
        have hrecord := active_bytes_injective hclean (Option.some.inj htrace).symm
        rw [← Option.some.inj hsame] at hrecord
        have hid := (names_generation_transaction hnames).1
        rw [hrecord] at hid
        exact absurd hid.symm hdistinct

/-- **Run.** The lock has a recoverable owner in every state of such a run. -/
theorem Run.owned (h : Run manager involved s) (hdistinct : Distinct involved) :
    Consistent manager s ∧ Owned manager involved s := by
  induction h with
  | initial => exact ⟨Consistent.initial, Or.inl rfl⟩
  | @step involved s hrun operation n hleaves ih =>
    obtain ⟨hs, howned⟩ := ih fun g hg g' hg' => hdistinct g (List.mem_append_left _ hg) g'
      (List.mem_append_left _ hg')
    refine ⟨consistent_step hs operation n, ?_⟩
    rcases howned with hfree | ⟨g, hg, hlock, hevidence⟩
    · refine (owned_free hs hfree operation n hleaves).imp_right ?_
      rintro ⟨g, hg, hrest⟩
      exact ⟨g, List.mem_append_right _ hg, hrest⟩
    · refine (owned_held hs hevidence hlock hg operation n hdistinct).imp_right ?_
      rintro ⟨g, hg, hrest⟩
      exact ⟨g, List.mem_append_left _ hg, hrest⟩

/-- **The lock can always be released.** Whenever it is held and no operation is
running, the recovery of some generation of the run returns and removes it. -/
theorem lock_released_by_recovery (h : Run manager involved s) (hdistinct : Distinct involved)
    (hlock : s.lock ≠ none) : ∃ g ∈ involved, ∃ result,
      ((recover manager g).run s).1 = .ok result ∧ ((recover manager g).run s).2.lock = none := by
  obtain ⟨hs, hfree | ⟨g, hg, howner, hevidence⟩⟩ := h.owned hdistinct
  · exact absurd hfree hlock
  refine ⟨g, hg, ?_⟩
  obtain ⟨result, hok, -, ⟨_, _, -, -, -, hafter, -⟩ | ⟨_, -, hafter, -⟩⟩ :=
    recover_of_recoverable hs.temps ⟨Or.inr howner, hevidence⟩
  · exact ⟨result, hok, by rw [hafter]⟩
  · exact ⟨result, hok, by rw [hafter]⟩

/-- The theorem at a project whose first publication stops with the lock taken. -/
theorem lock_released_sample : ∃ g ∈ ([] ++ [first_generation]), ∃ result,
    ((recover sample_manager g).run (((ManagerOperation.publish no_objects first_generation
      .AfterLock).program sample_manager).crash 1 ProjectState.initial)).1 = .ok result ∧
    ((recover sample_manager g).run (((ManagerOperation.publish no_objects first_generation
      .AfterLock).program sample_manager).crash 1 ProjectState.initial)).2.lock = none := by
  refine lock_released_by_recovery (.step .initial (.publish no_objects first_generation .AfterLock) 1
    fun _ _ => ⟨?_, ?_⟩) ?_ (by decide +kernel)
  · rintro ⟨record, hread, -⟩
    cases hread
  · intro hrename
    exact absurd hrename (by decide +kernel)
  · intro g hg g' hg' _
    rw [List.mem_singleton.mp hg, List.mem_singleton.mp hg']

/-! ## A rollback that is cut off -/

/-- A rollback can be cut off between the rename and the release of the lock. -/
theorem rollback_cut {current retained : LeanBunGenerationV1} (hfree : s.lock = none)
    (hcurrent : Active manager s current) (hretained : Published s retained)
    (hlocation : valid_location manager retained = true)
    (hidentity : current.identity ≠ retained.identity)
    (hid : current.transaction_id ≠ retained.transaction_id)
    (hclean : clean_value retained.generation_root = true) :
    ∃ n, (rollback_active_generation manager current retained).crash n s =
      { activate s retained with lock := some (lock_bytes current) } := by
  have hcheck : ∀ {x : GenerationResult Unit}, x = .ok () → (check x).run s = (.ok (), s) := by
    rintro _ rfl
    rfl
  have hactive : ∀ {s : ProjectState} {g : LeanBunGenerationV1}, Active manager s g →
      (verify_active_generation manager g).run s = (.ok (), s) := fun h =>
    Prog.Holds.run_eq (I := Anywhere)
      (Holds.verify_active_generation trivial (fun hnot => absurd h hnot) fun _ => ⟨rfl, rfl⟩)
  have hpublished : ∀ {s : ProjectState} {g : LeanBunGenerationV1}, Published s g →
      (verify_published_generation g).run s = (.ok (), s) := fun h =>
    Prog.Holds.run_eq (I := Anywhere)
      (Holds.verify_published_generation trivial (fun hnot => absurd h hnot) fun _ => ⟨rfl, rfl⟩)
  have hlock : (acquire_lock current).run s =
      (.ok (), { s with lock := some (lock_bytes current) }) := by
    unfold acquire_lock
    rw [Prog.run_atomic, hfree]
  have hlocked : (rollback_locked manager current retained).run
      { s with lock := some (lock_bytes current) } =
      (.ok (), { activate s retained with lock := some (lock_bytes current) }) := by
    refine Prog.Holds.run_eq (I := Anywhere) ((rollback_locked_holds (E := fun _ _ => False) hcurrent
      hretained hlocation hclean trivial trivial trivial).mono (fun _ h => h)
      (fun _ _ _ h => ⟨rfl, h⟩) fun _ _ _ h => h)
  have hdistinct : ¬(current.identity = retained.identity ∨
      current.transaction_id = retained.transaction_id) := not_or.mpr ⟨hidentity, hid⟩
  unfold rollback_active_generation
  refine Prog.exists_crash_bind (hcheck (if_pos hcurrent.1)) ?_
  refine Prog.exists_crash_bind (hcheck (if_pos hlocation)) ?_
  refine Prog.exists_crash_bind (hcheck (if_neg hdistinct)) ?_
  refine Prog.exists_crash_bind (hactive hcurrent) ?_
  refine Prog.exists_crash_bind (hpublished hretained) ?_
  refine Prog.exists_crash_bind hlock ?_
  refine Prog.exists_crash_bind (Prog.run_attempt _ _) ?_
  rw [hlocked]
  exact ⟨0, rfl⟩

/-- No recovery removes the lock that such a rollback leaves. -/
theorem rollback_cut_stranded {current retained : LeanBunGenerationV1} (hs : Consistent manager s)
    (hfree : s.lock = none) (hcurrent : Active manager s current) (hretained : Published s retained)
    (hlocation : valid_location manager retained = true)
    (hid : current.transaction_id ≠ retained.transaction_id) :
    ∀ g ∈ [current, retained], ∀ result, ((recover manager g).run
      { activate s retained with lock := some (lock_bytes current) }).1 ≠ .ok result := by
  have hs' : Consistent manager { activate s retained with lock := some (lock_bytes current) } :=
    consistent_rollback hs (.renamed hfree hcurrent hretained hlocation hid _ (Or.inl rfl))
  have hclean := clean_of_published hs hlocation hretained
  have hread : read_active { activate s retained with lock := some (lock_bytes current) } =
      .ok (some (active_record retained)) :=
    (read_active_bytes rfl).mpr ⟨rfl, hclean, active_text_small retained⟩
  intro g hg result hok
  obtain ⟨hlock, hrecovered⟩ := (recover_phases hs'.temps).run_ok hok
  rcases List.mem_cons.mp hg with rfl | hg
  · -- the owner of the lock is published but no longer active
    rcases hrecovered with ⟨record, text, hactive, -⟩ | ⟨record, hinactive, -⟩
    · obtain ⟨observed, hobserved, hnames⟩ := hactive.active
      rw [hread] at hobserved
      rw [← Option.some.inj (Except.ok.inj hobserved)] at hnames
      exact hid (names_generation_transaction hnames).1.symm
    · obtain ⟨-, -, ⟨other, hother, -, -, hpublished⟩, -⟩ := hcurrent
      rcases hinactive.transaction with ⟨hnone, -⟩ | hsome
      · have hnone : s.transactions g.transaction_id = none := hnone
        rw [read_transaction_none hnone] at hother
        cases hother
      · have hsome : s.transactions g.transaction_id = some (transaction_bytes record) := hsome
        rw [read_transaction_bytes hsome] at hother
        rw [← Option.some.inj (Except.ok.inj hother)] at hpublished
        rcases hinactive.state with h | ⟨h, -⟩
        · rw [hpublished] at h
          cases h
        · exact h hpublished
  · -- the active generation does not own the lock
    rw [List.mem_singleton.mp hg] at hlock
    rcases hlock with h | h
    · cases h
    · exact hid (lock_bytes_injective (Option.some.inj h)).1

/-- A publication that has returned leaves its generation active. -/
theorem active_renamed {directory : Option GenerationDirectory} {retained lock : Option Str}
    (hlocation : valid_location manager g = true) (hclean : clean_value g.generation_root = true)
    (hverified : verify_directory g directory = .ok ()) :
    Active manager (renamed s g .Published directory retained lock) g := by
  refine ⟨hlocation, ⟨active_record g, ?_, ?_⟩, ⟨transaction_record g .Published, ?_, rfl, rfl, rfl⟩, ?_⟩
  · exact (read_active_bytes rfl).mpr ⟨rfl, hclean, active_text_small g⟩
  · unfold names_generation active_record
    simp
  · exact read_transaction_bytes (Function.update_self ..)
  · rw [show (renamed s g .Published directory retained lock).generations g.transaction_id = directory
      from Function.update_self ..]
    exact hverified

/-- It leaves every other published generation as it was. -/
theorem published_renamed {state : LeanGenerationStateV1} {directory : Option GenerationDirectory}
    {retained lock : Option Str} (hne : other.transaction_id ≠ g.transaction_id)
    (h : Published s other) : Published (renamed s g state directory retained lock) other := by
  have htransactions : (renamed s g state directory retained lock).transactions other.transaction_id =
      s.transactions other.transaction_id := Function.update_of_ne hne ..
  have hgenerations : (renamed s g state directory retained lock).generations other.transaction_id =
      s.generations other.transaction_id := Function.update_of_ne hne ..
  unfold Published read_transaction at h ⊢
  rw [htransactions, hgenerations]
  exact h

/-- The references of a generation without packages always fit after a publication. -/
theorem fits_bare {text : Str} (hbare : g.packages = []) (h : Retains s other text)
    (hsmall : byte_len text ≤ MAX_RECORD_BYTES) (hretained : s'.retained = some text) : fits s' g := by
  obtain ⟨pairs, hpairs, rfl⟩ := h
  have hsorted := retain_sorted (read_retained_sorted hpairs) other
  refine ⟨retain pairs other, (read_retained_bytes hsorted hretained).1.mpr hsmall, ?_⟩
  rw [show retain (retain pairs other) g = retain pairs other by
    unfold retain references
    rw [hbare]
    rfl]
  exact hsmall

/-- The states after two publications, one after the other. -/
structure PublishedTwice (manager : LeanGenerationManagerV1) (objects : ObjectTrees)
    (first second : LeanBunGenerationV1) (s₁ s₂ : ProjectState) : Prop where
  first_run : (publish manager objects first .None).run ProjectState.initial =
    (.ok (outcome first .Published), s₁)
  second_run : (publish manager objects second .None).run s₁ = (.ok (outcome second .Published), s₂)
  first_free : s₁.lock = none
  second_free : s₂.lock = none
  first_active : Active manager s₁ first
  second_active : Active manager s₂ second
  first_kept : Published s₂ first
  first_fits : fits s₁ first
  second_fresh : s₁.transactions second.transaction_id = none

/-- Two generations without packages are published without trouble. -/
theorem publish_twice {first second : LeanBunGenerationV1}
    (hfirst : valid_location manager first = true) (hsecond : valid_location manager second = true)
    (hbare : first.packages = [] ∧ second.packages = []) (objects : ObjectTrees)
    (hsmall : ∀ file, byte_len (generation_text first file) ≤ MAX_RECORD_BYTES ∧
      byte_len (generation_text second file) ≤ MAX_RECORD_BYTES)
    (hid : second.transaction_id ≠ first.transaction_id)
    (hplain : plain_path manager.state_root = true) :
    ∃ s₁ s₂, PublishedTwice manager objects first second s₁ s₂ := by
  have hclean : ∀ {g : LeanBunGenerationV1}, valid_location manager g = true →
      clean_value g.generation_root = true := fun h => (clean_generation_root h).trans hplain
  have hdirectory := materializes_bare objects hbare.1 fun file => (hsmall file).1
  have hdirectory' := materializes_bare objects hbare.2 fun file => (hsmall file).2
  obtain ⟨text, htext, hle, hrun⟩ := publish_completes hfirst (s := ProjectState.initial) rfl rfl rfl
    hdirectory hplain ⟨[], rfl, by
      unfold retain references
      rw [hbare.1]
      show byte_len (retained_bytes []) ≤ MAX_RECORD_BYTES
      decide⟩
  have hactive₁ : Active manager (renamed ProjectState.initial first .Published
      (some (bare_directory first)) (some text) none) first :=
    active_renamed hfirst (hclean hfirst) hdirectory.1
  generalize hstate : renamed ProjectState.initial first .Published (some (bare_directory first))
    (some text) none = s₁ at hrun hactive₁
  have hfree₁ : s₁.lock = none := by
    rw [← hstate]
    rfl
  have hfresh₁ : s₁.transactions second.transaction_id = none := by
    rw [← hstate]
    exact Function.update_of_ne hid ..
  have habsent₁ : s₁.generations second.transaction_id = none := by
    rw [← hstate]
    exact Function.update_of_ne hid ..
  have hretained₁ : s₁.retained = some text := by
    rw [← hstate]
    rfl
  obtain ⟨text', -, -, hrun'⟩ := publish_completes hsecond hfree₁ hfresh₁ habsent₁ hdirectory'
    hplain (fits_bare hbare.2 htext hle hretained₁)
  exact ⟨s₁, _, hrun, hrun', hfree₁, rfl, hactive₁,
    active_renamed hsecond (hclean hsecond) hdirectory'.1,
    published_renamed hid.symm hactive₁.2.2, fits_bare hbare.1 htext hle hretained₁, hfresh₁⟩

/-- What a run of the program leaves is consistent. -/
theorem consistent_publish_run {objects : ObjectTrees} {fault : LeanGenerationFaultV1}
    {result : GenerationResult LeanGenerationOutcomeV1} (hs : Consistent manager s)
    (hrun : (publish manager objects g fault).run s = (result, s')) : Consistent manager s' := by
  obtain ⟨n, hn⟩ := Prog.crash_run (publish manager objects g fault) s
  have hend : (publish manager objects g fault).crash n s = s' := hn.trans (congrArg Prod.snd hrun)
  rw [← hend]
  exact consistent_publish hs (publish_crash manager s objects g fault n)

/-- Two publications and a rollback that is cut off leave a lock that no one can
remove. -/
theorem two_publications_stranded {first second : LeanBunGenerationV1}
    (hfirst : valid_location manager first = true) (hsecond : valid_location manager second = true)
    (hbare : first.packages = [] ∧ second.packages = []) (objects : ObjectTrees)
    (hsmall : ∀ file, byte_len (generation_text first file) ≤ MAX_RECORD_BYTES ∧
      byte_len (generation_text second file) ≤ MAX_RECORD_BYTES)
    (hid : second.transaction_id ≠ first.transaction_id) (hidentity : second.identity ≠ first.identity)
    (hplain : plain_path manager.state_root = true) :
    ∃ n₁ n₂ n₃, ∀ s, s = (rollback_active_generation manager second first).crash n₃
        ((publish manager objects second .None).crash n₂
          ((publish manager objects first .None).crash n₁ ProjectState.initial)) →
      s.lock ≠ none ∧ ∀ g ∈ [second, first], ∀ result, ((recover manager g).run s).1 ≠ .ok result := by
  obtain ⟨s₁, s₂, h⟩ := publish_twice hfirst hsecond hbare objects hsmall hid hplain
  obtain ⟨n₁, hn₁⟩ := Prog.crash_run (publish manager objects first .None) ProjectState.initial
  obtain ⟨n₂, hn₂⟩ := Prog.crash_run (publish manager objects second .None) s₁
  have hend₁ : (publish manager objects first .None).crash n₁ ProjectState.initial = s₁ :=
    hn₁.trans (congrArg Prod.snd h.first_run)
  have hend₂ : (publish manager objects second .None).crash n₂ s₁ = s₂ :=
    hn₂.trans (congrArg Prod.snd h.second_run)
  have hs₂ := consistent_publish_run (consistent_publish_run Consistent.initial h.first_run) h.second_run
  obtain ⟨n₃, hn₃⟩ := rollback_cut h.second_free h.second_active h.first_kept hfirst hidentity hid
    ((clean_generation_root hfirst).trans hplain)
  refine ⟨n₁, n₂, n₃, ?_⟩
  rintro s rfl
  rw [hend₁, hend₂, hn₃]
  refine ⟨by simp, ?_⟩
  exact rollback_cut_stranded hs₂ h.second_free h.second_active h.first_kept hfirst hid

/-- **A rollback that is cut off** after the rename of the active record: the lock is
the current generation's, the active record the other one's, and neither can be
recovered. -/
theorem rollback_crash_strands_lock : ∃ n₁ n₂ n₃, ∀ s,
    s = (rollback_active_generation sample_manager second_generation first_generation).crash n₃
      ((publish sample_manager no_objects second_generation .None).crash n₂
        ((publish sample_manager no_objects first_generation .None).crash n₁
          ProjectState.initial)) →
    s.lock ≠ none ∧ ∀ g ∈ [second_generation, first_generation],
      ∀ result, ((recover sample_manager g).run s).1 ≠ .ok result :=
  two_publications_stranded (bare_generation_location _ _ _) (bare_generation_location _ _ _)
    ⟨rfl, rfl⟩ no_objects
    (fun file => ⟨bare_generation_small _ _ _ file, bare_generation_small _ _ _ file⟩)
    (by decide) distinct_identities (by decide)

end LeanBun.Generation
