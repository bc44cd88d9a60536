/-
What a rollback goes back to.

A managed record with nothing pending names the transaction before the active one.
The generation of that transaction should still be there, published and in order, so
that a rollback to it succeeds. The invariant here follows the generations that a run
makes: `made` says which generation was built for a transaction when it was begun.

Two things break it. A recovery that completes an interrupted first adoption takes the
adoption's own transaction for the one before it. And a rollback that is cut off after
it has taken the project lock leaves the lock, or the two records apart.
-/
import LeanBun.Managed.Pairing

set_option autoImplicit false

namespace LeanBun.Managed

open LeanBun.Lib LeanBun.Core LeanBun.Generation

/-! ## Runs with the generations they make -/

/-- The generation that was built for each transaction. -/
abbrev Made := ExecutionId → Option LeanBunGenerationV1

/-- The transaction and the generation that an operation begins with these inputs. -/
def ManagedInputs.begins (controller : ManagedProjectControllerV1) (inputs : ManagedInputs) :
    Option LeanBunGenerationV1 :=
  match inputs.transaction, inputs.model with
  | .ok transaction, .ok model => (model.generation controller.manager transaction).toOption
  | _, _ => none

/-- An operation that begins a transaction makes its generation. -/
def ManagedOperation.begins (controller : ManagedProjectControllerV1) :
    ManagedOperation → Option LeanBunGenerationV1
  | .adopt _ _ inputs _ => inputs.begins controller
  | .update inputs _ => inputs.begins controller
  | .recover _ => none
  | .rollback _ => none

/-- The generations that are made once the operation is over. -/
def Made.with (made : Made) : Option LeanBunGenerationV1 → Made
  | none => made
  | some g => Function.update made g.transaction_id (some g)

/-- The runs of `Run`, with what they make. -/
inductive History (controller : ManagedProjectControllerV1)
    (allowed : ManagedState → ManagedOperation → ℕ → Prop) : Made → ManagedState → Prop
  | initial : History controller allowed (fun _ => none) ManagedState.initial
  | step {made : Made} {s : ManagedState} (hs : History controller allowed made s)
      (operation : ManagedOperation) (n : ℕ) (hallowed : allowed s operation n) :
      History controller allowed (made.with (operation.begins controller))
        (operation.cut controller n s)

/-- Two generations of the run that share a digest are of one transaction. -/
def Made.Distinct (made : Made) : Prop :=
  ∀ t t' g g', made t = some g → made t' = some g' → g.identity = g'.identity → t = t'

variable {controller : ManagedProjectControllerV1} {made : Made} {s : ManagedState}
  {generations : ProjectState} {t : ExecutionId}

/-! ## The invariant -/

/-- The generation of the transaction was made by the run and stands for it. -/
def MadeFor (controller : ManagedProjectControllerV1) (made : Made) (t : ExecutionId)
    (g : LeanBunGenerationV1) : Prop :=
  made t = some g ∧ StandsFor controller.manager t g

/-- The transaction is published, and its directory is as it was made. -/
def Intact (controller : ManagedProjectControllerV1) (made : Made) (generations : ProjectState)
    (t : ExecutionId) : Prop :=
  ∃ g, MadeFor controller made t g ∧ InOrder generations g .Published

/-- The same, and it is the active one. -/
def Serves (controller : ManagedProjectControllerV1) (made : Made) (generations : ProjectState)
    (t : ExecutionId) : Prop :=
  ∃ g, MadeFor controller made t g ∧ InOrder generations g .Published ∧
    generations.active = some (active_text g)

/-- How the managed record goes with the project directory. -/
inductive KeptRecord (controller : ManagedProjectControllerV1) (made : Made)
    (generations : ProjectState) (record : ManagedRecordV1) : Prop
  | settled (hpending : record.pending_transaction = none) (hfree : generations.lock = none)
      (hserves : Serves controller made generations record.active_transaction)
      (hprevious : ∀ p, record.previous_transaction = some p →
        p ≠ record.active_transaction ∧ Intact controller made generations p)
  | reserved (transaction : ExecutionId) (hpending : record.pending_transaction = some transaction)
      (hinitial : is_initial record transaction = true) (hnone : generations.active = none)
  | adopting (transaction : ExecutionId) (hpending : record.pending_transaction = some transaction)
      (hinitial : is_initial record transaction = true) (hactive : ActiveIs generations transaction)
  | committed (transaction : ExecutionId) (hpending : record.pending_transaction = some transaction)
      (hnew : transaction ≠ record.active_transaction) (g : LeanBunGenerationV1)
      (hmade : MadeFor controller made transaction g)
      (hactive : generations.active = some (active_text g)) (state : LeanGenerationStateV1)
      (horder : InOrder generations g state)
      (hprevious : Intact controller made generations record.active_transaction)
  | begun (transaction : ExecutionId) (hpending : record.pending_transaction = some transaction)
      (hnew : transaction ≠ record.active_transaction)
      (hserves : Serves controller made generations record.active_transaction)
      (hprevious : ∀ p, record.previous_transaction = some p →
        p ≠ record.active_transaction ∧ p ≠ transaction ∧ Intact controller made generations p)

/-- **The invariant of the rollback targets.** -/
structure Kept (controller : ManagedProjectControllerV1) (made : Made) (text : Option Str)
    (generations : ProjectState) : Prop where
  consistent : Consistent controller.manager generations
  absent : text = none → generations.active = none
  present : ∀ bytes, text = some bytes → ∃ record, bytes = record_bytes record ∧
    KeptRecord controller made generations record

theorem Kept.initial : Kept controller made none ProjectState.initial :=
  ⟨Consistent.initial, fun _ => rfl, fun _ h => by cases h⟩

theorem Kept.read (h : Kept controller made s.record s.generations) {record : ManagedRecordV1}
    (hreads : reads s record) : KeptRecord controller made s.generations record := by
  obtain ⟨other, hbytes, hkept⟩ := h.present _ hreads.text
  rw [hreads.unique (hreads.text.trans (congrArg some hbytes))]
  exact hkept

theorem kept_some {record : ManagedRecordV1} (hs : Consistent controller.manager generations)
    (h : KeptRecord controller made generations record) :
    Kept controller made (some (record_bytes record)) generations :=
  ⟨hs, fun hnone => (by cases hnone), fun _ hbytes => ⟨record, (Option.some.inj hbytes).symm, h⟩⟩

/-- A state of the stores with the record of `s` and another directory. -/
theorem kept_same {record : ManagedRecordV1} (hreads : reads s record)
    (hs : Consistent controller.manager generations)
    (h : KeptRecord controller made generations record) :
    Kept controller made s.record generations := by
  rw [hreads.text]
  exact kept_some hs h

theorem Serves.intact (h : Serves controller made generations t) :
    Intact controller made generations t := by
  obtain ⟨g, hmade, horder, -⟩ := h
  exact ⟨g, hmade, horder⟩

theorem Serves.active_is (h : Serves controller made generations t) : ActiveIs generations t := by
  obtain ⟨g, hmade, -, hactive⟩ := h
  rw [← hmade.2.named]
  exact active_is_record hactive

theorem Intact.recorded (h : Intact controller made generations t) :
    ∃ text, generations.transactions t = some text := by
  obtain ⟨g, hmade, htext, -⟩ := h
  rw [hmade.2.named] at htext
  exact ⟨_, htext⟩

/-! ### What carries over to a later state -/

/-- The record and the directory of the transaction are the same. -/
def SameAt (t : ExecutionId) (before after : ProjectState) : Prop :=
  after.transactions t = before.transactions t ∧ after.generations t = before.generations t

theorem InOrder.same {before after : ProjectState} {g : LeanBunGenerationV1}
    {state : LeanGenerationStateV1} (h : InOrder before g state)
    (hsame : SameAt g.transaction_id before after) : InOrder after g state := by
  refine ⟨hsame.1.trans h.1, ?_⟩
  rw [hsame.2]
  exact h.2

theorem Intact.same {before after : ProjectState} (h : Intact controller made before t)
    (hsame : SameAt t before after) : Intact controller made after t := by
  obtain ⟨g, hmade, horder⟩ := h
  refine ⟨g, hmade, horder.same ?_⟩
  rw [hmade.2.named]
  exact hsame

theorem Serves.same {before after : ProjectState} (h : Serves controller made before t)
    (hsame : SameAt t before after) (hactive : after.active = before.active) :
    Serves controller made after t := by
  obtain ⟨g, hmade, horder, hnow⟩ := h
  refine ⟨g, hmade, horder.same ?_, hactive.trans hnow⟩
  rw [hmade.2.named]
  exact hsame

theorem same_publish {before after : ProjectState} {g : LeanBunGenerationV1}
    {manager : LeanGenerationManagerV1} (hphase : PublishPhase manager before g after)
    (h : Intact controller made before t) : SameAt t before after := by
  obtain ⟨text, htext⟩ := h.recorded
  obtain ⟨hafter, hdirectory⟩ := publish_kept hphase htext
  exact ⟨hafter.trans htext.symm, hdirectory⟩

theorem same_recover {before after : ProjectState} {g : LeanBunGenerationV1}
    {manager : LeanGenerationManagerV1} (hphase : RecoverPhase manager before g after)
    (ht : t ≠ g.transaction_id) : SameAt t before after := by
  obtain ⟨-, hdirectories, hothers⟩ := recover_kept hphase
  exact ⟨hothers t ht, by rw [hdirectories]⟩

/-- Making another generation leaves the one of a recorded transaction. -/
theorem MadeFor.with {g new : LeanBunGenerationV1} (h : MadeFor controller made t g)
    (hnew : new.transaction_id ≠ t) : MadeFor controller (made.with (some new)) t g :=
  ⟨(Function.update_of_ne (Ne.symm hnew) ..).trans h.1, h.2⟩

/-- The generation is of a transaction without a record. -/
def Unrecorded (generations : ProjectState) (new : Option LeanBunGenerationV1) : Prop :=
  ∀ g, new = some g → generations.transactions g.transaction_id = none

theorem MadeFor.begins {g : LeanBunGenerationV1} {new : Option LeanBunGenerationV1} {text : Str}
    (h : MadeFor controller made t g) (htext : generations.transactions t = some text)
    (hnew : Unrecorded generations new) : MadeFor controller (made.with new) t g := by
  cases new with
  | none => exact h
  | some new =>
    refine h.with ?_
    rintro rfl
    rw [hnew new rfl] at htext
    cases htext

theorem Intact.begins {new : Option LeanBunGenerationV1} (h : Intact controller made generations t)
    (hnew : Unrecorded generations new) : Intact controller (made.with new) generations t := by
  obtain ⟨text, htext⟩ := h.recorded
  obtain ⟨g, hmade, horder⟩ := h
  exact ⟨g, hmade.begins htext hnew, horder⟩

theorem Serves.begins {new : Option LeanBunGenerationV1} (h : Serves controller made generations t)
    (hnew : Unrecorded generations new) : Serves controller (made.with new) generations t := by
  obtain ⟨text, htext⟩ := h.intact.recorded
  obtain ⟨g, hmade, horder, hactive⟩ := h
  exact ⟨g, hmade.begins htext hnew, horder, hactive⟩

/-- Beginning a transaction without a record changes nothing for the others. -/
theorem Kept.begins {text : Option Str} {new : Option LeanBunGenerationV1}
    (h : Kept controller made text generations) (hnew : Unrecorded generations new) :
    Kept controller (made.with new) text generations := by
  refine ⟨h.consistent, h.absent, fun bytes hbytes => ?_⟩
  obtain ⟨record, hrecord, hkept⟩ := h.present bytes hbytes
  refine ⟨record, hrecord, ?_⟩
  cases hkept with
  | settled hpending hfree hserves hprevious =>
    exact .settled hpending hfree (hserves.begins hnew) fun p hp =>
      ⟨(hprevious p hp).1, (hprevious p hp).2.begins hnew⟩
  | reserved transaction hpending hinitial hnone =>
    exact .reserved transaction hpending hinitial hnone
  | adopting transaction hpending hinitial hactive =>
    exact .adopting transaction hpending hinitial hactive
  | committed transaction hpending hne g hmade hactive state horder hprevious =>
    have htext := horder.1
    rw [hmade.2.named] at htext
    exact .committed transaction hpending hne g (hmade.begins htext hnew) hactive state horder
      (hprevious.begins hnew)
  | begun transaction hpending hne hserves hprevious =>
    exact .begun transaction hpending hne (hserves.begins hnew) fun p hp =>
      ⟨(hprevious p hp).1, (hprevious p hp).2.1, (hprevious p hp).2.2.begins hnew⟩

/-! ## Every operation keeps it -/

/-- The transaction that the inputs make has no record yet. -/
def FreshTransaction (inputs : ManagedInputs) (s : ManagedState) : Prop :=
  ∀ transaction, inputs.transaction = .ok transaction →
    s.generations.transactions transaction = none

theorem begins_eq_some {inputs : ManagedInputs} {g : LeanBunGenerationV1} :
    inputs.begins controller = some g ↔
      ∃ transaction, inputs.transaction = .ok transaction ∧ Gives controller inputs transaction g := by
  unfold ManagedInputs.begins Gives
  constructor
  · intro h
    split at h
    · next transaction model htransaction hmodel =>
      refine ⟨transaction, htransaction, model, hmodel, ?_⟩
      cases hg : model.generation controller.manager transaction with
      | error e => rw [hg] at h; cases h
      | ok g' => rw [hg] at h; exact congrArg Except.ok (Option.some.inj h)
    · cases h
  · rintro ⟨transaction, htransaction, model, hmodel, hg⟩
    rw [htransaction, hmodel]
    show (model.generation controller.manager transaction).toOption = some g
    rw [hg]
    rfl

theorem FreshTransaction.unrecorded {inputs : ManagedInputs} (h : FreshTransaction inputs s) :
    Unrecorded s.generations (inputs.begins controller) := by
  intro g hg
  obtain ⟨transaction, htransaction, hgives⟩ := begins_eq_some.mp hg
  rw [hgives.spec.named]
  exact h transaction htransaction

/-- The generation of the transaction that has begun. -/
theorem made_begins {inputs : ManagedInputs} {transaction : ExecutionId} {g : LeanBunGenerationV1}
    (htransaction : inputs.transaction = .ok transaction)
    (hgives : Gives controller inputs transaction g) :
    MadeFor controller (made.with (inputs.begins controller)) transaction g := by
  rw [begins_eq_some.mpr ⟨transaction, htransaction, hgives⟩]
  refine ⟨?_, hgives.spec⟩
  show Function.update made g.transaction_id (some g) transaction = some g
  rw [hgives.spec.named, Function.update_self]

theorem kept_adopt (h : Kept controller made s.record s.generations) {inputs : ManagedInputs}
    (hfresh : FreshTransaction inputs s) {text : Option Str}
    (hphase : AdoptPhase controller inputs s text generations) :
    Kept controller (made.with (inputs.begins controller)) text generations := by
  cases hphase with
  | idle => exact h.begins hfresh.unrecorded
  | reserved record transaction hreserves =>
    obtain ⟨hpending, -, hinitial⟩ := initial_preparing hreserves
    exact kept_some h.consistent
      (.reserved transaction hpending hinitial (h.absent hreserves.absent))
  | publishing record transaction hreserves g hgives _ hphase =>
    obtain ⟨hpending, -, hinitial⟩ := initial_preparing hreserves
    refine kept_some (consistent_publish h.consistent hphase) ?_
    rcases publish_active_cases hphase with hsame | ⟨hactive, -⟩
    · exact .reserved transaction hpending hinitial (hsame.trans (h.absent hreserves.absent))
    · refine .adopting transaction hpending hinitial ?_
      rw [← hgives.spec.named]
      exact active_is_record hactive
  | adopted record transaction hreserves g hgives _ hphase hfree hactive =>
    refine kept_some (consistent_publish h.consistent hphase) ?_
    obtain ⟨target, target_valid, management_input_sha256, rfl⟩ := hreserves.preparing
    refine .settled rfl hfree ?_ (fun _ hp => by cases hp)
    rcases publish_active_cases hphase with hsame | ⟨-, state, -, horder, hpublished⟩
    · rw [h.absent hreserves.absent, hactive] at hsame
      cases hsame
    · rw [hpublished hfree] at horder
      exact ⟨g, made_begins hreserves.named hgives, horder, hactive⟩

theorem KeptRecord.settled_spec {record : ManagedRecordV1}
    (h : KeptRecord controller made generations record)
    (hpending : record.pending_transaction = none) : generations.lock = none ∧
      Serves controller made generations record.active_transaction ∧
      ∀ p, record.previous_transaction = some p →
        p ≠ record.active_transaction ∧ Intact controller made generations p := by
  cases h with
  | settled _ hfree hserves hprevious => exact ⟨hfree, hserves, hprevious⟩
  | reserved _ hsome => rw [hpending] at hsome; cases hsome
  | adopting _ hsome => rw [hpending] at hsome; cases hsome
  | committed _ hsome => rw [hpending] at hsome; cases hsome
  | begun _ hsome => rw [hpending] at hsome; cases hsome

theorem kept_update (h : Kept controller made s.record s.generations) {inputs : ManagedInputs}
    (hfresh : FreshTransaction inputs s) {text : Option Str}
    (hphase : UpdatePhase controller inputs s text generations) :
    Kept controller (made.with (inputs.begins controller)) text generations := by
  have hunrecorded : Unrecorded s.generations (inputs.begins controller) := hfresh.unrecorded
  have hbegun := h.begins hunrecorded
  cases hphase with
  | idle => exact hbegun
  | publishing record transaction g hupdates _ hphase =>
    obtain ⟨-, hserves, hprevious⟩ := (hbegun.read hupdates.reads).settled_spec hupdates.settled
    have hnone := hfresh transaction hupdates.named
    have hnew : ∀ t', Intact controller (made.with (inputs.begins controller)) s.generations t' →
        t' ≠ transaction := by
      rintro _ hintact rfl
      obtain ⟨text, htext⟩ := hintact.recorded
      rw [hnone] at htext
      cases htext
    refine kept_some (consistent_publish h.consistent hphase) ?_
    rcases publish_active_cases hphase with hsame | ⟨hactive, state, -, horder, -⟩
    · refine .begun transaction rfl (hnew _ hserves.intact).symm
        (hserves.same (same_publish hphase hserves.intact) hsame) fun p hp => ?_
      obtain ⟨hne, hintact⟩ := hprevious p hp
      exact ⟨hne, hnew p hintact, hintact.same (same_publish hphase hintact)⟩
    · exact .committed transaction rfl (hnew _ hserves.intact).symm g
        (made_begins hupdates.named hupdates.gives) hactive state horder
        (hserves.intact.same (same_publish hphase hserves.intact))
  | updated record transaction g hupdates _ hphase hfree hactive =>
    obtain ⟨-, hserves, -⟩ := (hbegun.read hupdates.reads).settled_spec hupdates.settled
    have hnone := hfresh transaction hupdates.named
    have hnew : record.active_transaction ≠ transaction := by
      intro heq
      obtain ⟨text, htext⟩ := hserves.intact.recorded
      rw [heq, hnone] at htext
      cases htext
    refine kept_some (consistent_publish h.consistent hphase) (.settled rfl hfree ?_ ?_)
    · rcases publish_active_cases hphase with hsame | ⟨-, state, -, horder, hpublished⟩
      · -- the old active record names another transaction
        obtain ⟨named, hnamed, ht⟩ := hserves.active_is
        rw [hactive, hnamed] at hsame
        have hsame := active_bytes_transaction (Option.some.inj hsame)
        exact absurd (ht.symm.trans (hsame.symm.trans hupdates.gives.spec.named)) hnew
      · rw [hpublished hfree] at horder
        exact ⟨g, made_begins hupdates.named hupdates.gives, horder, hactive⟩
    · intro p hp
      cases hp
      exact ⟨hnew, hserves.intact.same (same_publish hphase hserves.intact)⟩

/-- No recovery finds the pending generation of a first adoption active. -/
def NotAdopting (controller : ManagedProjectControllerV1) (inputs : ManagedInputs)
    (s : ManagedState) : Prop :=
  ∀ record transaction g active, Recovers controller inputs s record transaction g →
    is_initial record transaction = true → read_active s.generations = .ok (some active) →
    active.generation ≠ g.identity

/-- The evidence for completing a publication is in the record that the run has kept. -/
theorem InOrder.recovered {manager : LeanGenerationManagerV1} {g g' : LeanBunGenerationV1}
    {state : LeanGenerationStateV1} {record : TransactionRecord} (h : InOrder generations g state)
    (hsame : g'.transaction_id = g.transaction_id)
    (hevidence : RecoversActive manager generations g' record) :
    record = transaction_record g state := by
  have htext := h.1
  rw [← hsame] at htext
  exact hevidence.record_eq htext

/-- **While a recovery is under way** the managed record is still right. -/
theorem kept_recovering {before after : ProjectState} {g : LeanBunGenerationV1}
    {record : ManagedRecordV1} {transaction : ExecutionId}
    (hs : Consistent controller.manager before)
    (h : KeptRecord controller made before record)
    (hpending : record.pending_transaction = some transaction)
    (hg : g.transaction_id = transaction)
    (hphase : RecoverPhase controller.manager before g after) :
    KeptRecord controller made after record := by
  obtain ⟨hactive_same, hdirectories, -⟩ := recover_kept hphase
  have hother : ∀ t, t ≠ transaction → SameAt t before after := by
    intro t ht
    rw [← hg] at ht
    exact same_recover hphase ht
  cases h with
  | settled hnone => rw [hpending] at hnone; cases hnone
  | reserved _ hsome hinitial hnone =>
    exact .reserved _ hsome hinitial (hactive_same.trans hnone)
  | adopting _ hsome hinitial hactive =>
    exact .adopting _ hsome hinitial (hactive.of_eq hactive_same)
  | committed t hsome hnew g' hmade hactive state horder hprevious =>
    rw [hpending] at hsome
    cases hsome
    have hnames := hmade.2.named
    have hkept : Intact controller made after record.active_transaction :=
      hprevious.same (hother _ (Ne.symm hnew))
    have hverified : verify_directory g' (after.generations g'.transaction_id) = .ok () := by
      rw [hdirectories]
      exact horder.2
    rcases recover_own hphase with hsame | ⟨settled, hevidence, hsettled⟩ | ⟨settled, hinactive⟩
    · refine .committed transaction hpending hnew g' hmade (hactive_same.trans hactive) state
        ⟨?_, hverified⟩ hkept
      rw [hnames, ← hg, hsame, hg, ← hnames]
      exact horder.1
    · rw [horder.recovered (hg.trans hnames.symm) hevidence] at hsettled
      refine .committed transaction hpending hnew g' hmade (hactive_same.trans hactive) .Published
        ⟨?_, hverified⟩ hkept
      rw [hnames, ← hg]
      exact hsettled
    · refine absurd ?_ (not_active_of_inactive hs hinactive)
      rw [hg, ← hnames]
      exact active_is_record hactive
  | begun t hsome hnew hserves hprevious =>
    rw [hpending] at hsome
    cases hsome
    refine .begun transaction hpending hnew (hserves.same (hother _ (Ne.symm hnew)) hactive_same)
      fun p hp => ?_
    obtain ⟨hne, hnot, hintact⟩ := hprevious p hp
    exact ⟨hne, hnot, hintact.same (hother p hnot)⟩

/-- What the manager's recovery of a pending update comes to. -/
theorem settles_committed {inputs : ManagedInputs} {record : ManagedRecordV1}
    {transaction : ExecutionId} {g : LeanBunGenerationV1} {active : Option ActiveRecord}
    (hs : Consistent controller.manager s.generations)
    (hsettles : Settles controller inputs s record transaction g active generations)
    (hactive : ActiveIs s.generations transaction) : Managed.committed active g = true ∧
      generations.lock = none ∧
      ∃ settled, RecoversActive controller.manager s.generations g settled ∧
        generations.transactions g.transaction_id =
          some (transaction_bytes { settled with state := .Published }) := by
  obtain ⟨result, -, ⟨settled, text, hevidence, -, -, rfl, -⟩ | ⟨settled, hinactive, -⟩⟩ :=
    hsettles.recovered
  · obtain ⟨observed, hread, hnames⟩ := hevidence.active
    rw [hsettles.active] at hread
    cases hread
    exact ⟨decide_eq_true (names_generation_transaction hnames).2.1, rfl, settled, hevidence,
      Function.update_self ..⟩
  · refine absurd ?_ (not_active_of_inactive hs hinactive)
    rw [hsettles.recovers.gives.spec.named]
    exact hactive

theorem settles_given_up {inputs : ManagedInputs} {record : ManagedRecordV1}
    {transaction : ExecutionId} {g : LeanBunGenerationV1} {active : Option ActiveRecord}
    (hs : Consistent controller.manager s.generations)
    (hdigest : DigestNames controller inputs s)
    (hsettles : Settles controller inputs s record transaction g active generations)
    (hactive : ¬ActiveIs s.generations transaction) : Managed.committed active g = false ∧
      generations.lock = none := by
  have hactive_is : ∀ observed, active = some observed → observed.transaction = transaction →
      ActiveIs s.generations transaction := by
    rintro observed rfl ht
    rcases hs.read_active hsettles.active with ⟨-, hnone⟩ | ⟨actual, hactual, hsame, -⟩
    · cases hnone
    · cases hsame
      exact ⟨observed, hactual, ht⟩
  constructor
  · by_contra hcommitted
    cases active with
    | none => exact hcommitted rfl
    | some observed =>
      have hidentity : observed.generation = g.identity := by
        by_contra hne
        exact hcommitted (decide_eq_false hne)
      exact hactive (hactive_is observed rfl
        (hdigest record transaction g observed hsettles.recovers hsettles.active hidentity))
  · obtain ⟨result, -, ⟨settled, text, hevidence, -, -, rfl, -⟩ | ⟨settled, -, rfl, -⟩⟩ :=
      hsettles.recovered
    · rfl
    · rfl

theorem kept_recover (h : Kept controller made s.record s.generations) {inputs : ManagedInputs}
    (hdigest : DigestNames controller inputs s) (hadopting : NotAdopting controller inputs s)
    {text : Option Str} (hphase : RecoveryPhase controller inputs s text generations) :
    Kept controller made text generations := by
  have hs := h.consistent
  cases hphase with
  | idle => exact h
  | dropped record transaction hreads hpending hinitial hunrecorded =>
    refine ⟨hs, fun _ => ?_, fun _ hbytes => by cases hbytes⟩
    have hnot : ¬ActiveIs s.generations transaction := fun hactive => hactive.recorded hs hunrecorded
    have hsame := is_initial_active hinitial
    cases h.read hreads with
    | settled hnone => rw [hpending] at hnone; cases hnone
    | reserved _ _ _ hnone => exact hnone
    | adopting _ hsome _ hactive =>
      rw [hpending] at hsome
      cases hsome
      exact absurd hactive hnot
    | committed _ hsome hnew =>
      rw [hpending] at hsome
      cases hsome
      exact absurd hsame hnew
    | begun _ hsome hnew =>
      rw [hpending] at hsome
      cases hsome
      exact absurd hsame hnew
  | recovering record transaction g hrecovers _ hphase =>
    exact kept_same hrecovers.reads (consistent_recover hs hphase)
      (kept_recovering hs (h.read hrecovers.reads) hrecovers.pending hrecovers.gives.spec.named hphase)
  | removed record transaction g hinitial _ hsettles =>
    refine ⟨consistent_recover hs hsettles.phase, fun _ => ?_, fun _ hbytes => by cases hbytes⟩
    exact (recover_kept hsettles.phase).1.trans (read_active_none.mp hsettles.active)
  | recovered record transaction g active hkept _ hsettles =>
    have hpending := hsettles.recovers.pending
    have hg := hsettles.recovers.gives.spec.named
    refine kept_some (consistent_recover hs hsettles.phase) ?_
    cases h.read hsettles.recovers.reads with
    | settled hnone => rw [hpending] at hnone; cases hnone
    | reserved _ hsome hinitial hnone =>
      rw [hpending] at hsome
      cases hsome
      refine absurd ?_ (hkept hinitial)
      have hread := hsettles.active
      rw [read_active_none.mpr hnone] at hread
      exact (Except.ok.inj hread).symm
    | adopting _ hsome hinitial hactive =>
      -- the adoption would be completed, as its own predecessor
      rw [hpending] at hsome
      cases hsome
      obtain ⟨hcommitted, -⟩ := settles_committed hs hsettles hactive
      cases active with
      | none => cases hcommitted
      | some observed =>
        exact absurd (of_decide_eq_true hcommitted :)
          (hadopting record transaction g observed hsettles.recovers hinitial hsettles.active)
    | committed _ hsome hnew g' hmade hactive state horder hprevious =>
      rw [hpending] at hsome
      cases hsome
      have hactive_is : ActiveIs s.generations transaction := by
        rw [← hmade.2.named]
        exact active_is_record hactive
      obtain ⟨hcommitted, hfree, settled, hevidence, hwritten⟩ :=
        settles_committed hs hsettles hactive_is
      obtain ⟨hactive_same, hdirectories, -⟩ := recover_kept hsettles.phase
      rw [hcommitted]
      refine .settled rfl hfree ⟨g', hmade, ⟨?_, ?_⟩, hactive_same.trans hactive⟩ ?_
      · -- the record of the pending transaction says now that it is published
        rw [horder.recovered (hg.trans hmade.2.named.symm) hevidence, hg, ← hmade.2.named] at hwritten
        exact hwritten
      · rw [hdirectories]
        exact horder.2
      · intro p hp
        cases hp
        have hother : record.active_transaction ≠ g.transaction_id := by
          rw [hg]
          exact Ne.symm hnew
        exact ⟨Ne.symm hnew, hprevious.same (same_recover hsettles.phase hother)⟩
    | begun _ hsome hnew hserves hprevious =>
      rw [hpending] at hsome
      cases hsome
      have hnot : ¬ActiveIs s.generations transaction := by
        rintro ⟨named, hnamed, ht⟩
        obtain ⟨named', hnamed', ht'⟩ := hserves.active_is
        rw [hnamed] at hnamed'
        have hsame := active_bytes_transaction (Option.some.inj hnamed')
        exact hnew (ht.symm.trans (hsame.trans ht'))
      obtain ⟨hcommitted, hfree⟩ := settles_given_up hs hdigest hsettles hnot
      rw [hcommitted]
      have hother : ∀ t, t ≠ transaction → SameAt t s.generations generations := by
        intro t ht
        rw [← hg] at ht
        exact same_recover hsettles.phase ht
      refine .settled rfl hfree
        (hserves.same (hother _ (Ne.symm hnew)) (recover_kept hsettles.phase).1) fun p hp => ?_
      obtain ⟨hne, hnotp, hintact⟩ := hprevious p hp
      exact ⟨hne, hintact.same (hother p hnotp)⟩

/-! ### Rolling back -/

/-- A generation that is published, and stands for the transaction, has the active record
of the one that was made for it. -/
theorem Intact.serves (hs : Consistent controller.manager generations)
    (h : Intact controller made generations t) {g : LeanBunGenerationV1}
    (hg : StandsFor controller.manager t g) (hpublished : Generation.Published generations g)
    {after : ProjectState} (hactive : after.active = some (active_text g))
    (hsame : SameAt t generations after) : Serves controller made after t := by
  obtain ⟨g', hmade, horder⟩ := h
  obtain ⟨record, htext, hidentity, -⟩ := published_text hs hpublished
  have hnames : g.transaction_id = g'.transaction_id := hg.named.trans hmade.2.named.symm
  have hrecord : record = transaction_record g' .Published := by
    have hother := horder.1
    rw [← hnames, htext] at hother
    exact transaction_bytes_injective (Option.some.inj hother)
  have hdigest : g'.identity = g.identity := by
    rw [← hidentity, hrecord]
    rfl
  have hrecords : active_record g = active_record g' := by
    unfold active_record
    rw [hnames, hdigest, hg.root, hmade.2.root]
  refine ⟨g', hmade, horder.same ?_, ?_⟩
  · rw [hmade.2.named]
    exact hsame
  · rw [hactive]
    exact congrArg (fun r => some (active_bytes r)) hrecords

theorem kept_rollback_end (h : Kept controller made s.record s.generations) {inputs : ManagedInputs}
    {text : Option Str} (hend : RollbackEnd controller inputs s text generations) :
    Kept controller made text generations := by
  cases hend with
  | idle => exact h
  | returned record previous current retained hreturns hcurrent hretained hphase =>
    have hs := h.consistent
    obtain ⟨-, hserves, hprevious⟩ := (h.read hreturns.reads).settled_spec hreturns.settled
    obtain ⟨hne, hintact⟩ := hprevious previous hreturns.named
    refine kept_some (consistent_rollback hs hphase) (.settled hreturns.settled rfl ?_ ?_)
    · exact hintact.serves hs hreturns.retained.spec hretained rfl ⟨rfl, rfl⟩
    · intro p hp
      cases hp
      exact ⟨Ne.symm hne, hserves.intact.same ⟨rfl, rfl⟩⟩

/-! ## Every run keeps it -/

/-- The steps that keep the rollback targets: transactions are new, no recovery completes
an interrupted first adoption or takes the active record for its own because of its digest
alone, and a rollback that has changed anything gets through to its end. -/
def KeepsTargets (controller : ManagedProjectControllerV1) (s : ManagedState) :
    ManagedOperation → ℕ → Prop
  | .adopt _ _ inputs _, _ => FreshTransaction inputs s
  | .update inputs _, _ => FreshTransaction inputs s
  | .recover inputs, _ => DigestNames controller inputs s ∧ NotAdopting controller inputs s
  | .rollback inputs, n =>
    (ManagedOperation.rollback inputs).cut controller n s = s.left ∨
      GotThrough controller s (.rollback inputs) n

/-- **Step.** -/
theorem kept_step (h : Kept controller made s.record s.generations) (operation : ManagedOperation)
    (n : ℕ) (hkeeps : KeepsTargets controller s operation n) :
    Kept controller (made.with (operation.begins controller)) (operation.cut controller n s).record
      (operation.cut controller n s).generations := by
  cases operation with
  | adopt target expected_tree inputs fault =>
    exact kept_adopt h hkeeps (cut_of (adopt_phases target expected_tree inputs fault) n)
  | update inputs fault => exact kept_update h hkeeps (cut_of (update_phases inputs fault) n)
  | recover inputs =>
    exact kept_recover h hkeeps.1 hkeeps.2 (cut_of (recover_phases h.consistent inputs) n)
  | rollback inputs =>
    rcases hkeeps with hsame | hthrough
    · rw [hsame]
      exact h
    · rw [hthrough]
      rcases (rollback_phases h.consistent inputs).run with ⟨_, -, hend⟩ | ⟨_, -, hend⟩
      · exact kept_rollback_end h hend
      · exact kept_rollback_end h hend

/-- **Run.** -/
theorem History.kept (h : History controller (KeepsTargets controller) made s) :
    Kept controller made s.record s.generations := by
  induction h with
  | initial => exact Kept.initial
  | step _ operation n hkeeps ih => exact kept_step ih operation n hkeeps

/-- No operation is under way between two steps of a run. -/
theorem History.left {allowed : ManagedState → ManagedOperation → ℕ → Prop}
    (h : History controller allowed made s) : s.lease = false := by
  cases h with
  | initial => rfl
  | step => rfl

/-- Every run makes some generations. -/
theorem Run.history {allowed : ManagedState → ManagedOperation → ℕ → Prop}
    (h : Run controller allowed s) : ∃ made, History controller allowed made s := by
  induction h with
  | initial => exact ⟨_, .initial⟩
  | step _ operation n hallowed ih =>
    obtain ⟨made, hmade⟩ := ih
    exact ⟨_, .step hmade operation n hallowed⟩

end LeanBun.Managed
