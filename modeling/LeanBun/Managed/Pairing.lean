/-
The two records of a managed project, over whole runs.

When nothing is pending, the generation manager's active record should name the
transaction that the managed record calls active. A rollback renames the one and
then replaces the other, and marks nothing as pending first: between the two it
must not be cut off. Everything else that a crash can leave behind is marked, and
`recover` finishes it either way.
-/
import LeanBun.Managed.Phases

set_option autoImplicit false

namespace LeanBun.Managed

open LeanBun.Lib LeanBun.Core LeanBun.Generation

/-! ## Runs -/

/-- The states that a run reaches whose steps are all allowed: each operation may be
cut off anywhere. -/
inductive Run (controller : ManagedProjectControllerV1)
    (allowed : ManagedState → ManagedOperation → ℕ → Prop) : ManagedState → Prop
  | initial : Run controller allowed ManagedState.initial
  | step {s : ManagedState} (hs : Run controller allowed s) (operation : ManagedOperation) (n : ℕ)
      (hallowed : allowed s operation n) : Run controller allowed (operation.cut controller n s)

theorem Run.mono {controller : ManagedProjectControllerV1}
    {allowed allowed' : ManagedState → ManagedOperation → ℕ → Prop} {s : ManagedState}
    (h : Run controller allowed s) (himp : ∀ s operation n, allowed s operation n →
      allowed' s operation n) : Run controller allowed' s := by
  induction h with
  | initial => exact .initial
  | step _ operation n hallowed ih => exact .step ih operation n (himp _ _ _ hallowed)

variable {controller : ManagedProjectControllerV1} {s : ManagedState}

/-- What holds at every crash of an operation holds of what it leaves behind. -/
theorem cut_of {P : Stores} {α : Type} {Q : α → ManagedState → Prop}
    {E : ManagedProjectError → ManagedState → Prop} {p : ManagedProg α}
    (h : Prog.Holds P.of Q E p s) (n : ℕ) :
    P (p.crash n s).left.record (p.crash n s).left.generations := h.crash n

/-! ## What the manager's operations leave alone -/

section Kept

variable {manager : LeanGenerationManagerV1} {before after : ProjectState} {g : LeanBunGenerationV1}
  {t : ExecutionId} {text : Str}

/-- A publication writes only the record and the directory of its own, new
transaction. -/
theorem publish_kept (h : PublishPhase manager before g after)
    (htext : before.transactions t = some text) :
    after.transactions t = some text ∧ after.generations t = before.generations t := by
  have hupdated : before.transactions g.transaction_id = none →
      ∀ (value : Option Str) (directory : Option GenerationDirectory),
        Function.update before.transactions g.transaction_id value t = some text ∧
          Function.update before.generations g.transaction_id directory t =
            before.generations t := by
    intro hfresh value directory
    have hne : t ≠ g.transaction_id := by
      rintro rfl
      rw [hfresh] at htext
      cases htext
    exact ⟨(Function.update_of_ne hne ..).trans htext, Function.update_of_ne hne ..⟩
  cases h with
  | idle => exact ⟨htext, rfl⟩
  | locked => exact ⟨htext, rfl⟩
  | staged _ _ hfresh => exact hupdated hfresh _ _
  | activated _ _ hfresh => exact hupdated hfresh _ _
  | retained _ _ hfresh => exact hupdated hfresh _ _
  | released _ _ hfresh => exact hupdated hfresh _ _

/-- The generation's transaction got as far as being verified, and its directory is in
order. -/
def InOrder (generations : ProjectState) (g : LeanBunGenerationV1)
    (state : LeanGenerationStateV1) : Prop :=
  generations.transactions g.transaction_id =
      some (transaction_bytes (transaction_record g state)) ∧
    verify_directory g (generations.generations g.transaction_id) = .ok ()

/-- The active record is the old one or the new generation's, which is then in order;
without a lock it is published. -/
theorem publish_active_cases (h : PublishPhase manager before g after) :
    after.active = before.active ∨ after.active = some (active_text g) ∧
      ∃ state, (state = .Verified ∨ state = .Published) ∧ InOrder after g state ∧
        (after.lock = none → state = .Published) := by
  have hnew : ∀ (state : LeanGenerationStateV1) (directory : Option GenerationDirectory)
      (retained lock : Option Str), verify_directory g directory = .ok () →
      InOrder (renamed before g state directory retained lock) g state := by
    intro state directory retained lock hverified
    refine ⟨Function.update_self .., ?_⟩
    show verify_directory g (Function.update before.generations g.transaction_id directory
      g.transaction_id) = .ok ()
    rw [Function.update_self]
    exact hverified
  cases h with
  | idle => exact Or.inl rfl
  | locked => exact Or.inl rfl
  | staged => exact Or.inl rfl
  | activated _ _ _ state directory hstate hverified =>
    exact Or.inr ⟨rfl, state, hstate.imp (fun h => h) And.left, hnew state directory _ _ hverified,
      fun hnone => by cases hnone⟩
  | retained _ _ _ directory _ _ hverified =>
    exact Or.inr ⟨rfl, .Published, Or.inr rfl, hnew _ directory _ _ hverified, fun _ => rfl⟩
  | released _ _ _ directory _ _ hverified =>
    exact Or.inr ⟨rfl, .Published, Or.inr rfl, hnew _ directory _ _ hverified, fun _ => rfl⟩

/-- A recovery leaves the active record and the directories alone, and the record of
every other transaction. -/
theorem recover_kept (h : RecoverPhase manager before g after) : after.active = before.active ∧
    after.generations = before.generations ∧
      ∀ t, t ≠ g.transaction_id → after.transactions t = before.transactions t := by
  cases h with
  | idle => exact ⟨rfl, rfl, fun _ _ => rfl⟩
  | _ => exact ⟨rfl, rfl, fun _ ht => Function.update_of_ne ht ..⟩

/-- What a recovery writes into its own transaction's record. -/
theorem recover_own (h : RecoverPhase manager before g after) :
    after.transactions g.transaction_id = before.transactions g.transaction_id ∨
      (∃ record, RecoversActive manager before g record ∧ after.transactions g.transaction_id =
        some (transaction_bytes { record with state := .Published })) ∨
      ∃ record, RecoversInactive manager before g record := by
  cases h with
  | idle => exact Or.inl rfl
  | published record hactive =>
    exact Or.inr (Or.inl ⟨record, hactive, Function.update_self ..⟩)
  | retained record hactive =>
    exact Or.inr (Or.inl ⟨record, hactive, Function.update_self ..⟩)
  | completed record hactive =>
    exact Or.inr (Or.inl ⟨record, hactive, Function.update_self ..⟩)
  | failed record hinactive => exact Or.inr (Or.inr ⟨record, hinactive⟩)
  | abandoned record hinactive => exact Or.inr (Or.inr ⟨record, hinactive⟩)

/-- A rollback leaves the transactions and the directories alone. -/
theorem rollback_kept {current retained : LeanBunGenerationV1}
    (h : RollbackPhase manager before current retained after) :
    after.transactions = before.transactions ∧ after.generations = before.generations := by
  cases h with
  | idle => exact ⟨rfl, rfl⟩
  | locked => exact ⟨rfl, rfl⟩
  | renamed => exact ⟨rfl, rfl⟩

end Kept

/-- The first lines of an active record hold its transaction, whatever its path is. -/
theorem active_bytes_transaction {a b : ActiveRecord} (h : active_bytes a = active_bytes b) :
    a.transaction = b.transaction := by
  have hfront : ∀ record : ActiveRecord, ∃ rest, active_bytes record =
      (active_header ++ '\n' :: "transaction\t".toList) ++ (record.transaction.as_str ++ rest) := by
    intro record
    refine ⟨'\n' :: unlines [field_line "generation".toList record.generation.to_string,
      field_line "path".toList record.path, active_footer], ?_⟩
    unfold active_bytes active_fields field_record field_record_lines field_line
    simp [unlines]
  obtain ⟨resta, ha⟩ := hfront a
  obtain ⟨restb, hb⟩ := hfront b
  rw [ha, hb] at h
  have hrest := List.append_cancel_left h
  have hlength : a.transaction.as_str.length = b.transaction.as_str.length := by
    rw [a.transaction.length, b.transaction.length]
  exact ExecutionId.ext (List.append_inj_left hrest hlength)

/-! ## The pairing -/

/-- The active record names the transaction. -/
def ActiveIs (generations : ProjectState) (t : ExecutionId) : Prop :=
  ∃ active, generations.active = some (active_bytes active) ∧ active.transaction = t

/-- The transaction's record says that it is published. -/
def IsPublished (generations : ProjectState) (t : ExecutionId) : Prop :=
  ∃ transaction, generations.transactions t = some (transaction_bytes transaction) ∧
    transaction.state = .Published

/-- How the managed record goes with the project directory. -/
inductive PairedRecord (generations : ProjectState) (record : ManagedRecordV1) : Prop
  | settled (hpending : record.pending_transaction = none)
      (hactive : ActiveIs generations record.active_transaction)
      (hpublished : IsPublished generations record.active_transaction)
  | reserved (transaction : ExecutionId) (hpending : record.pending_transaction = some transaction)
      (hinitial : is_initial record transaction = true) (hnone : generations.active = none)
  | committed (transaction : ExecutionId) (hpending : record.pending_transaction = some transaction)
      (hactive : ActiveIs generations transaction)
  | begun (transaction : ExecutionId) (hpending : record.pending_transaction = some transaction)
      (hactive : ActiveIs generations record.active_transaction)
      (hpublished : IsPublished generations record.active_transaction)

/-- **The pairing invariant.** -/
structure Paired (controller : ManagedProjectControllerV1) (text : Option Str)
    (generations : ProjectState) : Prop where
  consistent : Consistent controller.manager generations
  absent : text = none → generations.active = none
  present : ∀ bytes, text = some bytes → ∃ record, bytes = record_bytes record ∧
    PairedRecord generations record

theorem Paired.initial : Paired controller none ProjectState.initial :=
  ⟨Consistent.initial, fun _ => rfl, fun _ h => by cases h⟩

/-- The record that an operation reads is the one of the invariant. -/
theorem Paired.read (h : Paired controller s.record s.generations) {record : ManagedRecordV1}
    (hreads : reads s record) : PairedRecord s.generations record := by
  obtain ⟨other, hbytes, hpaired⟩ := h.present _ hreads.text
  rw [hreads.unique (hreads.text.trans (congrArg some hbytes))]
  exact hpaired

theorem PairedRecord.settled_names {generations : ProjectState} {record : ManagedRecordV1}
    (h : PairedRecord generations record) (hpending : record.pending_transaction = none) :
    ActiveIs generations record.active_transaction ∧
      IsPublished generations record.active_transaction := by
  cases h with
  | settled _ hactive hpublished => exact ⟨hactive, hpublished⟩
  | reserved transaction hsome => rw [hpending] at hsome; cases hsome
  | committed transaction hsome => rw [hpending] at hsome; cases hsome
  | begun transaction hsome => rw [hpending] at hsome; cases hsome

/-- One record with the same active transaction is paired as the other is. -/
theorem paired_some {generations : ProjectState} {record : ManagedRecordV1}
    (hconsistent : Consistent controller.manager generations)
    (h : PairedRecord generations record) :
    Paired controller (some (record_bytes record)) generations :=
  ⟨hconsistent, fun hnone => (by cases hnone), fun _ hbytes =>
    ⟨record, (Option.some.inj hbytes).symm, h⟩⟩

/-- The active record of a project without a lock names a published transaction. -/
theorem published_of_free {manager : LeanGenerationManagerV1} {generations : ProjectState}
    (h : Consistent manager generations) (hfree : generations.lock = none) {g : LeanBunGenerationV1}
    (hactive : generations.active = some (active_text g)) :
    ActiveIs generations g.transaction_id ∧ IsPublished generations g.transaction_id := by
  obtain ⟨record, hbytes, -, hclean, transaction, htransaction, -, hstate⟩ := h.active _ hactive
  have hsame : record = active_record g := active_bytes_injective (hclean hfree) hbytes.symm
  subst hsame
  refine ⟨⟨active_record g, hactive, rfl⟩, transaction, htransaction, ?_⟩
  rcases h.ended hfree htransaction with h | h
  · exact h
  · rcases hstate with hstate | hstate <;> rw [h] at hstate <;> cases hstate

theorem IsPublished.publish {manager : LeanGenerationManagerV1} {before after : ProjectState}
    {g : LeanBunGenerationV1} {t : ExecutionId} (h : IsPublished before t)
    (hphase : PublishPhase manager before g after) : IsPublished after t := by
  obtain ⟨transaction, htext, hstate⟩ := h
  exact ⟨transaction, (publish_kept hphase htext).1, hstate⟩

theorem ActiveIs.of_eq {before after : ProjectState} {t : ExecutionId} (h : ActiveIs before t)
    (hsame : after.active = before.active) : ActiveIs after t := by
  obtain ⟨active, hactive, ht⟩ := h
  exact ⟨active, hsame.trans hactive, ht⟩

theorem active_is_record {generations : ProjectState} {g : LeanBunGenerationV1}
    (h : generations.active = some (active_text g)) : ActiveIs generations g.transaction_id :=
  ⟨active_record g, h, rfl⟩

/-! ## Every operation keeps it -/

theorem initial_preparing {inputs : ManagedInputs} {record : ManagedRecordV1}
    {transaction : ExecutionId} (h : Reserves controller inputs s record transaction) :
    record.pending_transaction = some transaction ∧ record.active_transaction = transaction ∧
      is_initial record transaction = true := by
  obtain ⟨target, target_valid, management_input_sha256, rfl⟩ := h.preparing
  refine ⟨rfl, rfl, ?_⟩
  unfold is_initial preparing_record
  simp

theorem paired_adopt (h : Paired controller s.record s.generations) {inputs : ManagedInputs}
    {text : Option Str} {generations : ProjectState}
    (hphase : AdoptPhase controller inputs s text generations) :
    Paired controller text generations := by
  cases hphase with
  | idle => exact h
  | reserved record transaction hreserves =>
    obtain ⟨hpending, -, hinitial⟩ := initial_preparing hreserves
    exact paired_some h.consistent (.reserved transaction hpending hinitial (h.absent hreserves.absent))
  | publishing record transaction hreserves g hgives _ hphase =>
    obtain ⟨hpending, -, hinitial⟩ := initial_preparing hreserves
    refine paired_some (consistent_publish h.consistent hphase) ?_
    rcases publish_active_cases hphase with hsame | ⟨hactive, -⟩
    · exact .reserved transaction hpending hinitial (hsame.trans (h.absent hreserves.absent))
    · refine .committed transaction hpending ?_
      rw [← hgives.spec.named]
      exact active_is_record hactive
  | adopted record transaction hreserves g hgives _ hphase hfree hactive =>
    have hconsistent := consistent_publish h.consistent hphase
    obtain ⟨hnames, hpublished⟩ := published_of_free hconsistent hfree hactive
    rw [hgives.spec.named, ← (initial_preparing hreserves).2.1] at hnames hpublished
    exact paired_some hconsistent (.settled rfl hnames hpublished)

theorem paired_update (h : Paired controller s.record s.generations) {inputs : ManagedInputs}
    {text : Option Str} {generations : ProjectState}
    (hphase : UpdatePhase controller inputs s text generations) :
    Paired controller text generations := by
  cases hphase with
  | idle => exact h
  | publishing record transaction g hupdates _ hphase =>
    obtain ⟨hnames, hpublished⟩ := (h.read hupdates.reads).settled_names hupdates.settled
    refine paired_some (consistent_publish h.consistent hphase) ?_
    rcases publish_active_cases hphase with hsame | ⟨hactive, -⟩
    · exact .begun transaction rfl (hnames.of_eq hsame) (hpublished.publish hphase)
    · refine .committed transaction rfl ?_
      rw [← hupdates.gives.spec.named]
      exact active_is_record hactive
  | updated record transaction g hupdates _ hphase hfree hactive =>
    have hconsistent := consistent_publish h.consistent hphase
    obtain ⟨hnames, hpublished⟩ := published_of_free hconsistent hfree hactive
    rw [hupdates.gives.spec.named] at hnames hpublished
    exact paired_some hconsistent (.settled rfl hnames hpublished)

/-- The record that the active record was read as. -/
theorem ActiveIs.read {manager : LeanGenerationManagerV1} {generations : ProjectState}
    (hs : Consistent manager generations) {t : ExecutionId} (h : ActiveIs generations t)
    {active : Option ActiveRecord} (hread : read_active generations = .ok active) :
    ∃ record, active = some record ∧ record.transaction = t := by
  obtain ⟨named, hnamed, ht⟩ := h
  rcases hs.read_active hread with ⟨hnone, -⟩ | ⟨record, hrecord, hsame, -⟩
  · rw [hnone] at hnamed
    cases hnamed
  · rw [hrecord] at hnamed
    exact ⟨record, hsame, (active_bytes_transaction (Option.some.inj hnamed)).trans ht⟩

/-- A transaction that the active record names has a record. -/
theorem ActiveIs.recorded {manager : LeanGenerationManagerV1} {generations : ProjectState}
    (hs : Consistent manager generations) {t : ExecutionId} (h : ActiveIs generations t) :
    generations.transactions t ≠ none := by
  obtain ⟨named, hnamed, rfl⟩ := h
  obtain ⟨record, hbytes, -, -, transaction, htransaction, -⟩ := hs.active _ hnamed
  rw [active_bytes_transaction hbytes, htransaction]
  exact Option.some_ne_none _

/-- A recovery that gives its transaction up is of one that is not active. -/
theorem not_active_of_inactive {manager : LeanGenerationManagerV1} {generations : ProjectState}
    (hs : Consistent manager generations) {g : LeanBunGenerationV1} {record : TransactionRecord}
    (h : RecoversInactive manager generations g record) : ¬ActiveIs generations g.transaction_id := by
  intro hactive
  obtain ⟨active, hread, hother⟩ := h.active
  obtain ⟨observed, rfl, ht⟩ := hactive.read hs hread
  exact hother observed rfl ht

/-- **A recovery of another transaction, or of the active one,** leaves what the active
record names published. -/
theorem names_recover {manager : LeanGenerationManagerV1} {before after : ProjectState}
    {g : LeanBunGenerationV1} {t : ExecutionId} (hs : Consistent manager before)
    (hphase : RecoverPhase manager before g after) (hactive : ActiveIs before t)
    (hpublished : IsPublished before t) : ActiveIs after t ∧ IsPublished after t := by
  obtain ⟨hsame, -, hothers⟩ := recover_kept hphase
  refine ⟨hactive.of_eq hsame, ?_⟩
  obtain ⟨transaction, htext, hstate⟩ := hpublished
  by_cases ht : t = g.transaction_id
  · subst ht
    rcases recover_own hphase with hkept | ⟨record, -, hsettled⟩ | ⟨record, hinactive⟩
    · exact ⟨transaction, hkept.trans htext, hstate⟩
    · exact ⟨_, hsettled, rfl⟩
    · exact absurd hactive (not_active_of_inactive hs hinactive)
  · exact ⟨transaction, (hothers t ht).trans htext, hstate⟩

theorem paired_recovering {manager : LeanGenerationManagerV1} {before after : ProjectState}
    {g : LeanBunGenerationV1} {record : ManagedRecordV1} (hs : Consistent manager before)
    (h : PairedRecord before record) (hphase : RecoverPhase manager before g after) :
    PairedRecord after record := by
  have hsame := (recover_kept hphase).1
  cases h with
  | settled hpending hactive hpublished =>
    obtain ⟨hactive, hpublished⟩ := names_recover hs hphase hactive hpublished
    exact .settled hpending hactive hpublished
  | reserved transaction hpending hinitial hnone =>
    exact .reserved transaction hpending hinitial (hsame.trans hnone)
  | committed transaction hpending hactive =>
    exact .committed transaction hpending (hactive.of_eq hsame)
  | begun transaction hpending hactive hpublished =>
    obtain ⟨hactive, hpublished⟩ := names_recover hs hphase hactive hpublished
    exact .begun transaction hpending hactive hpublished

/-- The pending generation has a digest of its own: the active record carries it only if
it names the pending transaction. -/
def DigestNames (controller : ManagedProjectControllerV1) (inputs : ManagedInputs)
    (s : ManagedState) : Prop :=
  ∀ record transaction g active, Recovers controller inputs s record transaction g →
    read_active s.generations = .ok (some active) → active.generation = g.identity →
    active.transaction = transaction

theorem is_initial_active {record : ManagedRecordV1} {transaction : ExecutionId}
    (h : is_initial record transaction = true) : transaction = record.active_transaction := by
  unfold is_initial at h
  simp only [Bool.and_eq_true, decide_eq_true_eq] at h
  exact h.1.2

theorem paired_recover (h : Paired controller s.record s.generations) {inputs : ManagedInputs}
    (hdigest : DigestNames controller inputs s) {text : Option Str} {generations : ProjectState}
    (hphase : RecoveryPhase controller inputs s text generations) :
    Paired controller text generations := by
  have hs := h.consistent
  cases hphase with
  | idle => exact h
  | dropped record transaction hreads hpending hinitial hunrecorded =>
    refine ⟨hs, fun _ => ?_, fun _ hbytes => by cases hbytes⟩
    -- an active record would name a transaction with a record
    have hnot : ¬ActiveIs s.generations transaction := fun hactive => hactive.recorded hs hunrecorded
    cases h.read hreads with
    | settled hnone => rw [hpending] at hnone; cases hnone
    | reserved _ _ _ hnone => exact hnone
    | committed _ hsome hactive =>
      rw [hpending] at hsome
      cases hsome
      exact absurd hactive hnot
    | begun _ _ hactive =>
      rw [← is_initial_active hinitial] at hactive
      exact absurd hactive hnot
  | recovering record transaction g hrecovers _ hphase =>
    refine ⟨consistent_recover hs hphase, ?_, ?_⟩
    · intro hnone
      rw [hrecovers.reads.text] at hnone
      cases hnone
    · intro bytes hbytes
      rw [hrecovers.reads.text] at hbytes
      exact ⟨record, (Option.some.inj hbytes).symm,
        paired_recovering hs (h.read hrecovers.reads) hphase⟩
  | removed record transaction g hinitial _ hsettles =>
    refine ⟨consistent_recover hs hsettles.phase, fun _ => ?_, fun _ hbytes => by cases hbytes⟩
    exact (recover_kept hsettles.phase).1.trans (read_active_none.mp hsettles.active)
  | recovered record transaction g active hkept _ hsettles =>
    have htransaction := hsettles.recovers.gives.spec.named
    refine paired_some (consistent_recover hs hsettles.phase) ?_
    obtain ⟨result, -, hrecovered⟩ := hsettles.recovered
    cases hcommitted : Managed.committed active g with
    | true =>
      -- the pending generation is active: it was published
      obtain ⟨observed, rfl, hobserved⟩ : ∃ observed, active = some observed ∧
          observed.generation = g.identity := by
        cases active with
        | none => cases hcommitted
        | some observed => exact ⟨observed, rfl, of_decide_eq_true hcommitted⟩
      have hnamed := hdigest record transaction g observed hsettles.recovers hsettles.active hobserved
      have hactive : ActiveIs s.generations transaction := by
        rcases hs.read_active hsettles.active with ⟨-, hnone⟩ | ⟨actual, hactual, hsame, -⟩
        · cases hnone
        · cases hsame
          exact ⟨observed, hactual, hnamed⟩
      refine .settled rfl (hactive.of_eq (recover_kept hsettles.phase).1) ?_
      rcases hrecovered with ⟨settled, text, -, -, -, hstate, -⟩ | ⟨settled, hinactive, -⟩
      · refine ⟨{ settled with state := .Published }, ?_, rfl⟩
        show _ = some (transaction_bytes { settled with state := .Published })
        rw [hstate]
        show Function.update _ _ _ transaction = _
        rw [htransaction, Function.update_self]
      · rw [← htransaction] at hactive
        exact absurd hactive (not_active_of_inactive hs hinactive)
    | false =>
      -- the pending generation was given up
      have hgiven : ∀ observed, active = some observed → observed.transaction ≠ transaction := by
        rintro observed rfl ht
        rcases hrecovered with ⟨settled, text, hevidence, -⟩ | ⟨settled, hinactive, -⟩
        · obtain ⟨named, hread, hnames⟩ := hevidence.active
          rw [hsettles.active] at hread
          cases hread
          have hidentity := (names_generation_transaction hnames).2.1
          rw [show Managed.committed (some observed) g = true from decide_eq_true hidentity] at hcommitted
          cases hcommitted
        · obtain ⟨read, hread, hother⟩ := hinactive.active
          rw [hsettles.active] at hread
          cases hread
          exact hother observed rfl (ht.trans htransaction.symm)
      cases h.read hsettles.recovers.reads with
      | settled hnone => rw [hsettles.recovers.pending] at hnone; cases hnone
      | reserved _ hsome hinitial hnone =>
        rw [hsettles.recovers.pending] at hsome
        cases hsome
        refine absurd ?_ (hkept hinitial)
        have hread := hsettles.active
        rw [read_active_none.mpr hnone] at hread
        exact (Except.ok.inj hread).symm
      | committed _ hsome hactive =>
        rw [hsettles.recovers.pending] at hsome
        cases hsome
        obtain ⟨observed, hobserved, ht⟩ := hactive.read hs hsettles.active
        exact absurd ht (hgiven observed hobserved)
      | begun _ _ hactive hpublished =>
        obtain ⟨hactive, hpublished⟩ := names_recover hs hsettles.phase hactive hpublished
        exact .settled rfl hactive hpublished

theorem published_text {manager : LeanGenerationManagerV1} {generations : ProjectState}
    (hs : Consistent manager generations) {g : LeanBunGenerationV1} (h : Published generations g) :
    ∃ record, generations.transactions g.transaction_id = some (transaction_bytes record) ∧
      record.generation = g.identity ∧ record.state = .Published := by
  obtain ⟨⟨record, hread, -, hidentity, hstate⟩, -⟩ := h
  cases htext : generations.transactions g.transaction_id with
  | none =>
    rw [read_transaction_none htext] at hread
    cases hread
  | some text =>
    obtain ⟨other, rfl, -⟩ := hs.transactions _ text htext
    rw [read_transaction_bytes htext] at hread
    cases Option.some.inj (Except.ok.inj hread)
    exact ⟨record, rfl, hidentity, hstate⟩

/-- What a rollback leaves behind when it has left the active record alone, or when it
got through to its end. -/
theorem paired_rollback (h : Paired controller s.record s.generations) {inputs : ManagedInputs}
    {text : Option Str} {generations : ProjectState}
    (hphase : ReturnPhase controller inputs s text generations)
    (hcut : generations.active = s.generations.active ∨
      RollbackEnd controller inputs s text generations) :
    Paired controller text generations := by
  have hs := h.consistent
  have hended : ∀ {text : Option Str} {generations : ProjectState},
      RollbackEnd controller inputs s text generations → Paired controller text generations := by
    intro text generations hend
    cases hend with
    | idle => exact h
    | returned record previous current retained hreturns _ hretained hphase =>
      obtain ⟨transaction, htext, -, hstate⟩ := published_text hs hretained
      have hnamed := hreturns.retained.spec.named
      refine paired_some (consistent_rollback hs hphase)
        (.settled hreturns.settled ?_ ⟨transaction, ?_, hstate⟩)
      · show ActiveIs _ previous
        rw [← hnamed]
        exact active_is_record rfl
      · show s.generations.transactions previous = _
        rw [← hnamed]
        exact htext
  rcases hcut with hsame | hend
  · cases hphase with
    | ended hend => exact hended hend
    | returning record previous current retained hreturns _ hphase =>
      obtain ⟨hnames, transaction, htext, hstate⟩ :=
        (h.read hreturns.reads).settled_names hreturns.settled
      refine ⟨consistent_rollback hs hphase, ?_, ?_⟩
      · intro hnone
        rw [hreturns.reads.text] at hnone
        cases hnone
      · intro bytes hbytes
        rw [hreturns.reads.text] at hbytes
        refine ⟨record, (Option.some.inj hbytes).symm, .settled hreturns.settled
          (hnames.of_eq hsame) ⟨transaction, ?_, hstate⟩⟩
        rw [(rollback_kept hphase).1]
        exact htext
  · exact hended hend

/-! ## Every run keeps it -/

/-- The operation got through to its end, with a result or with an error. -/
def GotThrough (controller : ManagedProjectControllerV1) (s : ManagedState)
    (operation : ManagedOperation) (n : ℕ) : Prop :=
  operation.cut controller n s = ((operation.program controller).run s).2.left

/-- The steps that keep the two records together: a rollback that has renamed the active
record gets through to its end, and no recovery takes the active record for its own
because of its digest alone. -/
def KeepsPairing (controller : ManagedProjectControllerV1) (s : ManagedState) :
    ManagedOperation → ℕ → Prop
  | .recover inputs, _ => DigestNames controller inputs s
  | .rollback inputs, n =>
    ((ManagedOperation.rollback inputs).cut controller n s).generations.active =
        s.generations.active ∨
      GotThrough controller s (.rollback inputs) n
  | _, _ => True

/-- **Step.** -/
theorem paired_step (h : Paired controller s.record s.generations) (operation : ManagedOperation)
    (n : ℕ) (hkeeps : KeepsPairing controller s operation n) :
    Paired controller (operation.cut controller n s).record
      (operation.cut controller n s).generations := by
  cases operation with
  | adopt target expected_tree inputs fault =>
    exact paired_adopt h (cut_of (adopt_phases target expected_tree inputs fault) n)
  | update inputs fault => exact paired_update h (cut_of (update_phases inputs fault) n)
  | recover inputs => exact paired_recover h hkeeps (cut_of (recover_phases h.consistent inputs) n)
  | rollback inputs =>
    have hphases := rollback_phases h.consistent inputs
    refine paired_rollback h (cut_of hphases n) (hkeeps.imp (fun hsame => hsame) fun hthrough => ?_)
    rw [hthrough]
    rcases hphases.run with ⟨_, -, hend⟩ | ⟨_, -, hend⟩
    · exact hend
    · exact hend

/-- **Run.** -/
theorem Run.paired (h : Run controller (KeepsPairing controller) s) :
    Paired controller s.record s.generations := by
  induction h with
  | initial => exact Paired.initial
  | step _ operation n hkeeps ih => exact paired_step ih operation n hkeeps

end LeanBun.Managed
