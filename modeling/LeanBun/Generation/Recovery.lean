/-
A publication that is cut off, and its recovery.

Wherever the publication of a fresh generation is cut off, the active record is
the old one or the new one, and a recovery completes the publication or gives it
up. There is one exception: once the active record is renamed, the recovery has
to read it back and to extend the retained record. A control character in the
path of the manager's state makes the first impossible, a retained record that
outgrows its reader the second; the project then stays locked.
-/
import LeanBun.Generation.Progress
import LeanBun.Generation.Renames

set_option autoImplicit false

namespace LeanBun.Generation

open LeanBun.Lib LeanBun.Core LeanBun.Store

variable {manager : LeanGenerationManagerV1} {s s' : ProjectState} {g : LeanBunGenerationV1}

/-- The active record names exactly this generation. -/
def names_active (s : ProjectState) (g : LeanBunGenerationV1) : Prop :=
  ∃ observed, read_active s = .ok (some observed) ∧ names_generation observed g = true

/-- The state that a recovery of `g` leaves. -/
def recovered_state (manager : LeanGenerationManagerV1) (g : LeanBunGenerationV1) (s : ProjectState) :
    ProjectState := ((recover manager g).run s).2

/-- What a publication of `g` from `s` promises of a state `s'` in which it is cut
off. -/
structure CrashSafe (manager : LeanGenerationManagerV1) (s : ProjectState) (g : LeanBunGenerationV1)
    (s' : ProjectState) : Prop where
  /-- The active record is the old one or the complete new one. -/
  active : s'.active = s.active ∨ s'.active = some (active_text g)
  /-- It is the new one only when the generation was verified. -/
  verified : s'.active = some (active_text g) →
    (∃ state, (state = .Verified ∨ state = .Published) ∧
      s'.transactions g.transaction_id = some (transaction_bytes (transaction_record g state))) ∧
    verify_directory g (s'.generations g.transaction_id) = .ok ()
  /-- A recovery completes the publication when the active record names `g`, and
  otherwise gives it up and leaves the old active record. -/
  recovered : ∃ result, ((recover manager g).run s').1 = .ok result ∧
    (names_active s' g → result.state = .Published ∧ result.active = true) ∧
    (¬names_active s' g → result.state = .Failed ∧ result.active = false ∧
      (recovered_state manager g s').active = s.active)
  /-- The lock is released either way. -/
  released : (recovered_state manager g s').lock = none
  /-- Recovering again changes nothing. -/
  stable : ∀ k, (recovered_state manager g)^[k] (recovered_state manager g s') =
    recovered_state manager g s'

/-! ## Recovering twice -/

/-- The retained record after its own update is read and fits. -/
theorem retains_again {text : Str} (h : Retains s g text) (hsmall : byte_len text ≤ MAX_RECORD_BYTES)
    (hretained : s'.retained = some text) : fits s' g ∧ ∀ again, Retains s' g again → again = text := by
  obtain ⟨pairs, hpairs, rfl⟩ := h
  have hsorted := retain_sorted (read_retained_sorted hpairs) g
  have hread : read_retained s' = .ok (retain pairs g) :=
    (read_retained_bytes hsorted hretained).1.mpr hsmall
  constructor
  · refine ⟨retain pairs g, hread, ?_⟩
    rw [retain_idempotent]
    exact hsmall
  · rintro again ⟨others, hothers, rfl⟩
    rw [hread] at hothers
    rw [← Except.ok.inj hothers, retain_idempotent]

/-- Recovering a completed publication again changes nothing. -/
theorem recover_published_again (hs : Consistent manager s) {record : TransactionRecord} {text : Str}
    (hactive : RecoversActive manager s g record) (hretains : Retains s g text)
    (hsmall : byte_len text ≤ MAX_RECORD_BYTES)
    (hlock : s.lock = none ∨ s.lock = some (lock_bytes g)) :
    recovered_state manager g { settle s g record .Published with retained := some text, lock := none } =
      { settle s g record .Published with retained := some text, lock := none } := by
  have hconsistent : Consistent manager
      { settle s g record .Published with retained := some text, lock := none } :=
    consistent_recover hs (.completed record hactive text hretains hsmall hlock)
  have hretained : ({ settle s g record .Published with
      retained := some text, lock := none } : ProjectState).retained = some text := rfl
  obtain ⟨hfits, hagain⟩ := retains_again hretains hsmall hretained
  have htransaction : ({ settle s g record .Published with
      retained := some text, lock := none } : ProjectState).transactions g.transaction_id =
      some (transaction_bytes { record with state := .Published }) := Function.update_self ..
  have hevidence : RecoversActive manager
      { settle s g record .Published with retained := some text, lock := none } g
      { record with state := .Published } :=
    ⟨hactive.location, hactive.active, hactive.verified, htransaction, Or.inl rfl⟩
  obtain ⟨result, -, hresult⟩ := recover_of_recoverable hconsistent.temps
    ⟨Or.inl rfl, Or.inl ⟨⟨_, hevidence⟩, hfits⟩⟩
  rcases hresult with ⟨-, ⟨other, again, hother, hretained, -, hstate, -⟩ | ⟨other, hother, -⟩⟩
  · unfold recovered_state
    rw [hstate, hother.record_eq htransaction, hagain again hretained]
    unfold settle ProjectState.set_transaction
    dsimp only
    rw [Function.update_idem]
  · exact absurd hother hevidence.not_inactive

/-- Recovering an abandoned publication again changes nothing. -/
theorem recover_failed_again (hs : Consistent manager s) {record : TransactionRecord}
    (hinactive : RecoversInactive manager s g record)
    (hlock : s.lock = none ∨ s.lock = some (lock_bytes g)) :
    recovered_state manager g { settle s g record .Failed with
        active_temps := other_temps g s.active_temps, lock := none } =
      { settle s g record .Failed with
        active_temps := other_temps g s.active_temps, lock := none } := by
  have hconsistent : Consistent manager { settle s g record .Failed with
      active_temps := other_temps g s.active_temps, lock := none } :=
    consistent_recover hs (.abandoned record hinactive hlock)
  have htransaction : ({ settle s g record .Failed with
      active_temps := other_temps g s.active_temps, lock := none } : ProjectState).transactions
      g.transaction_id = some (transaction_bytes { record with state := .Failed }) :=
    Function.update_self ..
  have hevidence : RecoversInactive manager { settle s g record .Failed with
      active_temps := other_temps g s.active_temps, lock := none } g { record with state := .Failed } :=
    ⟨hinactive.location, hinactive.active, Or.inr htransaction, Or.inl rfl⟩
  obtain ⟨result, -, hresult⟩ := recover_of_recoverable hconsistent.temps
    ⟨Or.inl rfl, Or.inr ⟨_, hevidence⟩⟩
  rcases hresult with ⟨-, ⟨other, -, hother, -⟩ | ⟨other, hother, hstate, -⟩⟩
  · exact absurd hevidence hother.not_inactive
  · unfold recovered_state
    rw [hstate, hother.record_eq htransaction]
    unfold settle ProjectState.set_transaction
    dsimp only
    rw [Function.update_idem, other_temps_idempotent]

/-! ## Giving a publication up -/

/-- A fresh generation is not the active one. -/
theorem fresh_not_active (hs : Consistent manager s) (hfree : s.lock = none)
    (hfresh : s.transactions g.transaction_id = none) {record : ActiveRecord}
    (h : s.active = some (active_bytes record)) : record.transaction ≠ g.transaction_id := by
  obtain ⟨other, hsame, -, hclean, transaction, htransaction, -⟩ := hs.active _ h
  intro hid
  rw [active_bytes_injective (hclean hfree) hsame.symm, hid, hfresh] at htransaction
  cases htransaction

/-- Cut off before the rename, a publication is given up. -/
theorem crash_safe_inactive (hs : Consistent manager s) (hfree : s.lock = none)
    (hfresh : s.transactions g.transaction_id = none) (hs' : Consistent manager s')
    (hactive : s'.active = s.active) {record : TransactionRecord}
    (hlocation : valid_location manager g = true)
    (htransaction : s'.transactions g.transaction_id = none ∧ record = transaction_record g .Preparing ∨
      s'.transactions g.transaction_id = some (transaction_bytes record))
    (hstate : record.state ≠ .Published ∧ record.project = g.project_id ∧
      record.generation = g.identity)
    (hlock : s'.lock = none ∨ s'.lock = some (lock_bytes g)) : CrashSafe manager s g s' := by
  obtain ⟨active, hread⟩ := hs.readable hfree
  have hread' : read_active s' = .ok active := by
    unfold read_active
    rw [hactive]
    exact hread
  have hother : ∀ observed, active = some observed → observed.transaction ≠ g.transaction_id := by
    intro observed hobserved
    rcases hs.read_active hread with ⟨-, hnone⟩ | ⟨actual, htext, hsame, -⟩
    · rw [hnone] at hobserved
      cases hobserved
    · rw [hsame] at hobserved
      rw [← Option.some.inj hobserved]
      exact fresh_not_active hs hfree hfresh htext
  have hevidence : RecoversInactive manager s' g record :=
    ⟨hlocation, ⟨active, hread', hother⟩, htransaction, Or.inr hstate⟩
  obtain ⟨result, hok, hresult⟩ := recover_of_recoverable hs'.temps
    ⟨hlock, Or.inr ⟨record, hevidence⟩⟩
  rcases hresult with ⟨-, ⟨other, -, hother', -⟩ | ⟨other, hother', hafter, hresult⟩⟩
  · exact absurd hevidence hother'.not_inactive
  have hunnamed : ¬names_active s' g := by
    rintro ⟨observed, hobserved, hnames⟩
    rw [hread'] at hobserved
    exact hother observed (Except.ok.inj hobserved) (names_generation_transaction hnames).1
  refine ⟨Or.inl hactive, fun hnew => ?_, ⟨result, hok, fun h => absurd h hunnamed, fun _ => ?_⟩, ?_,
    fun k => ?_⟩
  · rw [hactive] at hnew
    exact absurd rfl (fresh_not_active hs hfree hfresh hnew)
  · refine ⟨by rw [hresult], by rw [hresult], ?_⟩
    unfold recovered_state
    rw [hafter]
    exact hactive
  · unfold recovered_state
    rw [hafter]
  · apply Function.iterate_fixed
    have hstep : recovered_state manager g s' = _ := hafter
    rw [hstep]
    exact recover_failed_again hs' hother' hlock

/-! ## Completing a publication -/

/-- Cut off after the rename, a publication is completed if the retained record
allows it. -/
theorem crash_safe_active (hs' : Consistent manager s') {state : LeanGenerationStateV1}
    (hlocation : valid_location manager g = true)
    (hclean : clean_value g.generation_root = true)
    (hactive : s'.active = some (active_text g))
    (hstate : state = .Verified ∨ state = .Published)
    (htransaction : s'.transactions g.transaction_id =
      some (transaction_bytes (transaction_record g state)))
    (hverified : verify_directory g (s'.generations g.transaction_id) = .ok ())
    (hlock : s'.lock = none ∨ s'.lock = some (lock_bytes g)) (hfits : fits s' g) :
    CrashSafe manager s g s' := by
  have hread : read_active s' = .ok (some (active_record g)) :=
    (read_active_bytes hactive).mpr ⟨rfl, hclean, active_text_small g⟩
  have hnames : names_generation (active_record g) g = true := by
    unfold names_generation active_record
    simp
  have hevidence : RecoversActive manager s' g (transaction_record g state) :=
    ⟨hlocation, ⟨_, hread, hnames⟩, hverified, htransaction,
      hstate.symm.imp (fun h => h) fun h => ⟨h, rfl, rfl⟩⟩
  obtain ⟨result, hok, hresult⟩ := recover_of_recoverable hs'.temps
    ⟨hlock, Or.inl ⟨⟨_, hevidence⟩, hfits⟩⟩
  rcases hresult with
    ⟨-, ⟨other, text, hother, hretains, hsmall, hafter, hresult⟩ | ⟨other, hother, -⟩⟩
  swap
  · exact absurd hother hevidence.not_inactive
  refine ⟨Or.inr hactive, fun _ => ⟨⟨state, hstate, htransaction⟩, hverified⟩,
    ⟨result, hok, fun _ => ?_, fun h => absurd ⟨_, hread, hnames⟩ h⟩, ?_, fun k => ?_⟩
  · exact ⟨by rw [hresult], by rw [hresult]⟩
  · unfold recovered_state
    rw [hafter]
  · apply Function.iterate_fixed
    have hstep : recovered_state manager g s' = _ := hafter
    rw [hstep]
    exact recover_published_again hs' hother hretains hsmall hlock

/-- A recovery of the renamed generation reads both records. -/
theorem crash_safe_needs (h : CrashSafe manager s g s') (hs' : Consistent manager s')
    (hactive : s'.active = some (active_text g)) :
    clean_value g.generation_root = true ∧ ∃ text, Retains s' g text ∧
      byte_len text ≤ MAX_RECORD_BYTES := by
  obtain ⟨result, hok, -⟩ := h.recovered
  have hresult := (recover_phases hs'.temps).run_ok hok
  rcases hresult with ⟨-, ⟨record, text, hevidence, hretains, hsmall, -⟩ | ⟨record, hevidence, -⟩⟩
  · obtain ⟨observed, hread, -⟩ := hevidence.active
    exact ⟨((read_active_bytes hactive).mp hread).2.1, text, hretains, hsmall⟩
  · obtain ⟨active, hread, hother⟩ := hevidence.active
    rcases hs'.read_active hread with ⟨hnone, -⟩ | ⟨actual, htext, hsame, hclean⟩
    · rw [hnone] at hactive
      cases hactive
    · rw [htext] at hactive
      have hrecord := active_bytes_injective hclean (Option.some.inj hactive)
      exact absurd (by rw [hrecord]; rfl) (hother actual hsame)

/-! ## Every crash point -/

/-- **Phase by phase.** A publication keeps its promise exactly when the active
record is still the old one, or the recovery can read the new one and extend the
retained record. -/
theorem phase_crash_safe_iff (hs : Consistent manager s) (hfree : s.lock = none)
    (hlocation : valid_location manager g = true) (hfresh : s.transactions g.transaction_id = none)
    (hphase : PublishPhase manager s g s') : CrashSafe manager s g s' ↔
      s'.active = s.active ∨ plain_path manager.state_root = true ∧ fits s g := by
  have hs' := consistent_publish hs hphase
  have hroot := clean_generation_root hlocation
  have hother : s.active ≠ some (active_text g) := fun h => fresh_not_active hs hfree hfresh h rfl
  -- after the rename, by how far the publication got
  have hrenamed : ∀ (state : LeanGenerationStateV1) (directory : Option GenerationDirectory)
      (retained lock : Option Str), s' = renamed s g state directory retained lock →
      (state = .Verified ∨ state = .Published) → verify_directory g directory = .ok () →
      (lock = none ∨ lock = some (lock_bytes g)) →
      (retained = s.retained ∨ ∃ text, Retains s g text ∧ retained = some text) →
      (CrashSafe manager s g s' ↔
        s'.active = s.active ∨ plain_path manager.state_root = true ∧ fits s g) := by
    rintro state directory retained lock rfl hstate hverified hlock hretained
    have hdirectory : verify_directory g ((renamed s g state directory retained lock).generations
        g.transaction_id) = .ok () := by
      rw [show (renamed s g state directory retained lock).generations g.transaction_id = directory
        from Function.update_self ..]
      exact hverified
    constructor
    · intro hsafe
      obtain ⟨hclean, text, htext, hsmall⟩ := crash_safe_needs hsafe hs' rfl
      refine Or.inr ⟨by rw [← hroot, hclean], ?_⟩
      rcases hretained with rfl | ⟨old, ⟨pairs, hpairs, rfl⟩, rfl⟩
      · obtain ⟨pairs, hpairs, rfl⟩ := htext
        exact ⟨pairs, hpairs, hsmall⟩
      · obtain ⟨read, hread, -⟩ := htext
        have hsorted := retain_sorted (read_retained_sorted hpairs) g
        exact ⟨pairs, hpairs, (read_retained_bytes hsorted rfl).2 read hread⟩
    · rintro (hsame | ⟨hplain, hfits⟩)
      · exact absurd hsame.symm hother
      · have hclean : clean_value g.generation_root = true := by rw [hroot, hplain]
        refine crash_safe_active hs' hlocation hclean rfl hstate (Function.update_self ..) hdirectory
          hlock ?_
        obtain ⟨pairs, hpairs, hsmall⟩ := hfits
        rcases hretained with rfl | ⟨old, ⟨others, hothers, rfl⟩, rfl⟩
        · exact ⟨pairs, hpairs, hsmall⟩
        · rw [hpairs] at hothers
          rw [← Except.ok.inj hothers]
          exact (retains_again ⟨pairs, hpairs, rfl⟩ hsmall rfl).1
  have hfresh_record : ∀ state, unpublished state → (transaction_record g state).state ≠ .Published ∧
      (transaction_record g state).project = g.project_id ∧
      (transaction_record g state).generation = g.identity := by
    intro state hstate
    refine ⟨?_, rfl, rfl⟩
    intro hpublished
    have hpublished : state = .Published := hpublished
    rcases hstate with h | h | h <;> rw [h] at hpublished <;> cases hpublished
  have hbefore : ∀ (h : s'.active = s.active), CrashSafe manager s g s' → (CrashSafe manager s g s' ↔
      s'.active = s.active ∨ plain_path manager.state_root = true ∧ fits s g) :=
    fun h hsafe => ⟨fun _ => Or.inl h, fun _ => hsafe⟩
  cases hphase with
  | idle =>
    exact hbefore rfl (crash_safe_inactive hs hfree hfresh hs' rfl hlocation (Or.inl ⟨hfresh, rfl⟩)
      (hfresh_record _ (Or.inl rfl)) (Or.inl hfree))
  | locked _ _ =>
    exact hbefore rfl (crash_safe_inactive hs hfree hfresh hs' rfl hlocation (Or.inl ⟨hfresh, rfl⟩)
      (hfresh_record _ (Or.inl rfl)) (Or.inr rfl))
  | staged _ _ _ state directory temps hstate _ =>
    exact hbefore rfl (crash_safe_inactive hs hfree hfresh hs' rfl hlocation
      (Or.inr (Function.update_self ..)) (hfresh_record _ hstate) (Or.inr rfl))
  | activated _ _ _ state directory hstate hverified =>
    exact hrenamed state directory _ _ rfl (hstate.imp (fun h => h) fun h => h.1) hverified
      (Or.inr rfl) (Or.inl rfl)
  | retained _ _ _ directory text _ hverified hretains =>
    exact hrenamed .Published directory _ _ rfl (Or.inr rfl) hverified (Or.inr rfl)
      (Or.inr ⟨text, hretains, rfl⟩)
  | released _ _ _ directory text _ hverified hretains _ =>
    exact hrenamed .Published directory _ _ rfl (Or.inr rfl) hverified (Or.inl rfl)
      (Or.inr ⟨text, hretains, rfl⟩)

/-- Without a plain path the first publication cannot be recovered. -/
theorem unplain_breaks_recovery (transaction : ExecutionId)
    (hproject : valid_absolute_path manager.project_root = true)
    (hroot : valid_absolute_path (manager.generation_root transaction) = true)
    (hplain : plain_path manager.state_root = false) (objects : ObjectTrees) :
    ∃ n, ¬CrashSafe manager ProjectState.initial (bare_generation manager transaction hproject hroot)
      ((publish manager objects (bare_generation manager transaction hproject hroot) .None).crash n
        ProjectState.initial) := by
  have hlocation := bare_generation_location transaction hproject hroot
  have hpublish := publish_bare (s := ProjectState.initial) transaction hproject hroot objects rfl rfl rfl
  generalize bare_generation manager transaction hproject hroot = g at hlocation hpublish ⊢
  obtain ⟨n, hn⟩ := Prog.crash_run (publish manager objects g .None) ProjectState.initial
  refine ⟨n, fun hsafe => ?_⟩
  have hactive : ((publish manager objects g .None).crash n ProjectState.initial).active =
      some (active_text g) := by
    rw [hn]
    rcases hpublish.run with ⟨_, -, -, text, -, hstate⟩ | ⟨_, -, hstate, -⟩
    · exact congrArg ProjectState.active hstate
    · exact hstate
  have hconsistent := consistent_publish Consistent.initial
    (publish_crash manager ProjectState.initial objects g .None n)
  have hclean := (crash_safe_needs hsafe hconsistent hactive).1
  rw [clean_generation_root hlocation, hplain] at hclean
  cases hclean

/-- The state is kept below a directory whose name ends with a delete character. -/
def broken_manager : LeanGenerationManagerV1 := ⟨"/state\x7f".toList, "/project".toList⟩

theorem broken_root_valid :
    valid_absolute_path (broken_manager.generation_root first_transaction) = true := by
  decide +kernel

abbrev broken_generation : LeanBunGenerationV1 :=
  bare_generation broken_manager first_transaction (by decide) broken_root_valid

end LeanBun.Generation
