/-
Where each operation of the controller can be cut off.

The phases of an operation are states of the two stores, the record of the
registry and the project directory of the generation manager; the lease does not
matter to them. The phases of the manager's own operations are used as they are:
between two writes of the managed record an operation is at most in the middle of
one of them.
-/
import LeanBun.Generation.Invariant
import LeanBun.Managed.Controller

set_option autoImplicit false

namespace LeanBun.Managed

open LeanBun.Lib LeanBun.Core LeanBun.Generation

/-- A fact about the two stores. -/
abbrev Stores := Option Str → ProjectState → Prop

/-- The stores of a state are as `P` says. -/
def Stores.of (P : Stores) (s : ManagedState) : Prop := P s.record s.generations

/-! ## The steps of the controller -/

section Steps

variable {I : ManagedState → Prop} {α β : Type} {Q : α → ManagedState → Prop}
  {E : ManagedProjectError → ManagedState → Prop} {s : ManagedState}

/-- **An operation of the manager** happens in the project directory. -/
theorem holds_manage {p : ManagerProg α} : Prog.Holds I Q E (manage p) s ↔
    Prog.Holds (fun generations => I { s with generations })
      (fun a generations => Q a { s with generations })
      (fun e generations => E (generation_error e) { s with generations }) p s.generations := by
  unfold manage
  rw [Prog.holds_map_error]
  refine Prog.holds_zoom (s := s.generations) (t := s) ?_ ?_
  · exact fun _ _ => rfl
  · exact fun _ _ _ => rfl

theorem Holds.manage_bind {p : ManagerProg β} {f : β → ManagedProg α} {J : β → ProjectState → Prop}
    {P : ProjectState → Prop} {F : LeanGenerationError → ProjectState → Prop}
    (h : Prog.Holds P J F p s.generations) (hI : ∀ generations, P generations → I { s with generations })
    (hE : ∀ e generations, P generations → F e generations →
      E (generation_error e) { s with generations })
    (hrest : ∀ b generations, P generations → J b generations →
      Prog.Holds I Q E (f b) { s with generations }) :
    Prog.Holds I Q E (manage p >>= f) s := by
  apply Prog.Holds.bind (J := fun b s' => ∃ generations, s' = { s with generations } ∧
    P generations ∧ J b generations)
  · rw [holds_manage]
    exact h.mono hI (fun b generations hP hJ => ⟨generations, rfl, hP, hJ⟩) hE
  · rintro b _ - ⟨generations, rfl, hP, hJ⟩
    exact hrest b generations hP hJ

/-- What `read_record` returns. -/
def reads (s : ManagedState) (record : ManagedRecordV1) : Prop :=
  ∃ text, s.record = some text ∧ read_text text = .ok record

theorem reads.text {record : ManagedRecordV1} (h : reads s record) :
    s.record = some (record_bytes record) := by
  obtain ⟨text, htext, hread⟩ := h
  rw [htext, (read_text_eq_ok hread).1]

theorem reads.unique {record other : ManagedRecordV1} (h : reads s record)
    (hother : s.record = some (record_bytes other)) : record = other := by
  obtain ⟨text, htext, hread⟩ := h
  obtain ⟨hbytes, hclean, -⟩ := read_text_eq_ok hread
  refine record_bytes_injective hclean ?_
  rw [← hbytes]
  exact Option.some.inj (htext.symm.trans hother)

theorem Holds.read_record_bind {f : ManagedRecordV1 → ManagedProg α} (hs : I s) (hE : ∀ e, E e s)
    (hrest : ∀ record, reads s record → Prog.Holds I Q E (f record) s) :
    Prog.Holds I Q E (read_record >>= f) s := by
  refine Prog.Holds.read_bind hs (fun e _ => hE e) fun record hrecord => hrest record ?_
  split at hrecord
  · cases hrecord
  · next text htext => exact ⟨text, htext, hrecord⟩

/-- A record of the usual size is read back after it was written. -/
theorem Holds.replace_record_bind {record : ManagedRecordV1} {f : Unit → ManagedProg α} (hs : I s)
    (hE : ∀ e, E e { s with record := some (record_bytes record) })
    (hrest : Prog.Holds I Q E (f ()) { s with record := some (record_bytes record) }) :
    Prog.Holds I Q E (replace_record record >>= f) s := by
  apply Prog.Holds.bind (J := fun _ s' => s' = { s with record := some (record_bytes record) })
  · unfold replace_record
    refine Prog.Holds.write_bind hs ?_
    exact Prog.holds_read.mpr ⟨hrest.start, fun _ _ => rfl, fun e _ => hE e⟩
  · rintro _ _ - rfl
    exact hrest

/-- **Under the lease.** An operation that finds the lease taken does nothing; the
lease is gone when it ends. -/
theorem holds_under_lease {P : Stores} {body : ManagedProg α} (hs : P.of s)
    (hbusy : s.lease = true → ∀ e, E e s)
    (hbody : s.lease = false → Prog.Holds P.of (fun a s' => Q a { s' with lease := false })
      (fun e s' => E e { s' with lease := false }) body { s with lease := true }) :
    Prog.Holds P.of Q E (under_lease body) s := by
  unfold under_lease
  by_cases hlease : s.lease = true
  · refine Prog.Holds.bind (J := fun _ _ => False) ?_ fun _ _ _ h => h.elim
    refine Prog.holds_atomic.mpr ?_
    rw [if_pos hlease]
    exact ⟨hs, hs, fun _ ha => (by cases ha), fun e _ => hbusy hlease e⟩
  · apply Prog.Holds.bind (J := fun _ s' => s' = { s with lease := true })
    · refine Prog.holds_atomic.mpr ?_
      rw [if_neg hlease]
      exact ⟨hs, hs, fun _ _ => rfl, fun _ he => by cases he⟩
    rintro _ _ - rfl
    apply Prog.Holds.attempt_bind
    -- the release changes neither store
    refine (hbody (Bool.eq_false_iff.mpr hlease)).mono (fun _ h => h) ?_ ?_
    · intro a s' hI hQ
      refine Prog.Holds.write_bind hI ?_
      exact Prog.holds_lift.mpr ⟨hI, fun b hb => Except.ok.inj hb ▸ hQ, fun e he => by cases he⟩
    · intro e s' hI hE
      refine Prog.Holds.write_bind hI ?_
      exact Prog.holds_lift.mpr ⟨hI, fun b hb => (by cases hb), fun e' he => Except.error.inj he ▸ hE⟩

end Steps

variable {controller : ManagedProjectControllerV1} {s : ManagedState}

/-! ## Adopting -/

/-- The reservation that an adoption starts with. -/
structure Reserves (controller : ManagedProjectControllerV1) (inputs : ManagedInputs)
    (s : ManagedState) (record : ManagedRecordV1) (transaction : ExecutionId) : Prop where
  absent : s.record = none
  named : inputs.transaction = .ok transaction
  preparing : ∃ target target_valid management_input_sha256,
    record = preparing_record controller target target_valid transaction management_input_sha256

/-- The generation that the inputs give for a transaction. -/
def Gives (controller : ManagedProjectControllerV1) (inputs : ManagedInputs)
    (transaction : ExecutionId) (g : LeanBunGenerationV1) : Prop :=
  ∃ model, inputs.model = .ok model ∧ model.generation controller.manager transaction = .ok g

theorem Gives.spec {inputs : ManagedInputs} {transaction : ExecutionId} {g : LeanBunGenerationV1}
    (h : Gives controller inputs transaction g) : StandsFor controller.manager transaction g := by
  obtain ⟨model, -, hg⟩ := h
  exact ManagedModelV1.generation_eq_ok hg

theorem Gives.unique {inputs : ManagedInputs} {transaction : ExecutionId}
    {g g' : LeanBunGenerationV1} (h : Gives controller inputs transaction g)
    (h' : Gives controller inputs transaction g') : g = g' := by
  obtain ⟨model, hmodel, hg⟩ := h
  obtain ⟨model', hmodel', hg'⟩ := h'
  rw [hmodel] at hmodel'
  cases hmodel'
  rw [hg] at hg'
  exact Except.ok.inj hg'

/-- Where an adoption can be cut off. -/
inductive AdoptPhase (controller : ManagedProjectControllerV1) (inputs : ManagedInputs)
    (s : ManagedState) : Stores
  | idle : AdoptPhase controller inputs s s.record s.generations
  | reserved (record : ManagedRecordV1) (transaction : ExecutionId)
      (hreserves : Reserves controller inputs s record transaction) :
      AdoptPhase controller inputs s (some (record_bytes record)) s.generations
  | publishing (record : ManagedRecordV1) (transaction : ExecutionId)
      (hreserves : Reserves controller inputs s record transaction) (g : LeanBunGenerationV1)
      (hgives : Gives controller inputs transaction g) (generations : ProjectState)
      (hphase : PublishPhase controller.manager s.generations g generations) :
      AdoptPhase controller inputs s (some (record_bytes record)) generations
  | adopted (record : ManagedRecordV1) (transaction : ExecutionId)
      (hreserves : Reserves controller inputs s record transaction) (g : LeanBunGenerationV1)
      (hgives : Gives controller inputs transaction g) (generations : ProjectState)
      (hphase : PublishPhase controller.manager s.generations g generations)
      (hfree : generations.lock = none) (hactive : generations.active = some (active_text g)) :
      AdoptPhase controller inputs s
        (some (record_bytes { record with pending_transaction := none })) generations

theorem adopt_phases (target : Str) (expected_tree : Sha256) (inputs : ManagedInputs)
    (fault : LeanGenerationFaultV1) :
    Prog.Holds (AdoptPhase controller inputs s).of (fun _ _ => True) (fun _ _ => True)
      (adopt_declaration_with_fault controller target expected_tree inputs fault) s := by
  have hidle : (AdoptPhase controller inputs s).of s := .idle
  unfold adopt_declaration_with_fault
  refine Prog.Holds.lift_bind hidle (fun _ _ => trivial) ?_
  rintro ⟨target_valid⟩ -
  refine Prog.Holds.read_bind hidle (fun _ _ => trivial) ?_
  intro _ habsent
  have habsent : s.record = none := by
    by_contra hsome
    rw [if_pos (Option.isSome_iff_ne_none.mpr hsome)] at habsent
    cases habsent
  refine Prog.Holds.lift_bind hidle (fun _ _ => trivial) ?_
  intro transaction htransaction
  refine Prog.Holds.lift_bind hidle (fun _ _ => trivial) ?_
  intro management_input_sha256 _
  dsimp only
  have hreserves : Reserves controller inputs s (preparing_record controller target target_valid
      transaction management_input_sha256) transaction :=
    ⟨habsent, htransaction, target, target_valid, management_input_sha256, rfl⟩
  generalize preparing_record controller target target_valid transaction management_input_sha256 =
    record at hreserves
  have hreserved : (AdoptPhase controller inputs s).of
      { s with record := some (record_bytes record) } := .reserved record transaction hreserves
  apply Prog.Holds.bind (J := fun _ s' => s' = { s with record := some (record_bytes record) })
  · -- nothing comes between the two checks and the creation of the file
    unfold create_record
    refine Prog.Holds.read_bind hidle (fun _ _ => trivial) fun _ _ => ?_
    refine Prog.Holds.atomic_ok (a := ()) ?_ hidle hreserved rfl
    rw [if_neg (by rw [habsent]; exact Bool.false_ne_true)]
  rintro _ _ - rfl
  refine Prog.Holds.lift_bind hreserved (fun _ _ => trivial) fun _ _ => ?_
  refine Prog.Holds.lift_bind hreserved (fun _ _ => trivial) fun _ _ => ?_
  refine Prog.Holds.lift_bind hreserved (fun _ _ => trivial) ?_
  intro model hmodel
  refine Prog.Holds.lift_bind hreserved (fun _ _ => trivial) fun _ _ => ?_
  refine Prog.Holds.lift_bind hreserved (fun _ _ => trivial) ?_
  intro g hg
  have hgives : Gives controller inputs transaction g := ⟨model, hmodel, hg⟩
  refine Holds.manage_bind (publish_phases inputs.objects fault)
    (fun generations hphase => .publishing record transaction hreserves g hgives generations hphase)
    (fun _ _ _ _ => trivial) ?_
  rintro _ generations hphase ⟨hfree, hactive⟩
  refine Holds.replace_record_bind
    (.publishing record transaction hreserves g hgives generations hphase) (fun _ => trivial) ?_
  exact ⟨.adopted record transaction hreserves g hgives generations hphase hfree hactive, trivial⟩

/-! ## Updating -/

/-- An update of an adopted project, with the generation that it publishes. -/
structure Updates (controller : ManagedProjectControllerV1) (inputs : ManagedInputs)
    (s : ManagedState) (record : ManagedRecordV1) (transaction : ExecutionId)
    (g : LeanBunGenerationV1) : Prop where
  reads : reads s record
  settled : record.pending_transaction = none
  named : inputs.transaction = .ok transaction
  gives : Gives controller inputs transaction g
  current : ∃ current, Gives controller inputs record.active_transaction current ∧
    Active controller.manager s.generations current

/-- The record of a project whose update has begun. -/
def updating_record (record : ManagedRecordV1) (transaction : ExecutionId) : ManagedRecordV1 :=
  { record with pending_transaction := some transaction }

/-- The record of a project whose update has ended. -/
def updated_record (record : ManagedRecordV1) (transaction : ExecutionId) : ManagedRecordV1 :=
  { record with
    previous_transaction := some record.active_transaction
    active_transaction := transaction
    pending_transaction := none }

/-- Where an update can be cut off. -/
inductive UpdatePhase (controller : ManagedProjectControllerV1) (inputs : ManagedInputs)
    (s : ManagedState) : Stores
  | idle : UpdatePhase controller inputs s s.record s.generations
  | publishing (record : ManagedRecordV1) (transaction : ExecutionId) (g : LeanBunGenerationV1)
      (hupdates : Updates controller inputs s record transaction g) (generations : ProjectState)
      (hphase : PublishPhase controller.manager s.generations g generations) :
      UpdatePhase controller inputs s (some (record_bytes (updating_record record transaction)))
        generations
  | updated (record : ManagedRecordV1) (transaction : ExecutionId) (g : LeanBunGenerationV1)
      (hupdates : Updates controller inputs s record transaction g) (generations : ProjectState)
      (hphase : PublishPhase controller.manager s.generations g generations)
      (hfree : generations.lock = none) (hactive : generations.active = some (active_text g)) :
      UpdatePhase controller inputs s (some (record_bytes (updated_record record transaction)))
        generations

/-- A check that a value is not there. -/
theorem isSome_check {α : Type} {value : Option α} {error : ManagedProjectError} {x : Unit}
    (h : (if value.isSome then .error error else .ok () : ManagedResult Unit) = .ok x) :
    value = none := by
  by_contra hsome
  rw [if_pos (Option.isSome_iff_ne_none.mpr hsome)] at h
  cases h

theorem update_phases (inputs : ManagedInputs) (fault : LeanGenerationFaultV1) :
    Prog.Holds (UpdatePhase controller inputs s).of (fun _ _ => True) (fun _ _ => True)
      (update_with_fault controller inputs fault) s := by
  refine holds_under_lease .idle (fun _ _ => trivial) fun _ => ?_
  have hidle : (UpdatePhase controller inputs s).of { s with lease := true } := .idle
  refine Holds.read_record_bind hidle (fun _ => trivial) ?_
  intro record hreads
  refine Prog.Holds.lift_bind hidle (fun _ _ => trivial) ?_
  intro _ hsettled
  refine Prog.Holds.lift_bind hidle (fun _ _ => trivial) ?_
  intro model hmodel
  refine Prog.Holds.lift_bind hidle (fun _ _ => trivial) fun _ _ => ?_
  refine Prog.Holds.lift_bind hidle (fun _ _ => trivial) ?_
  intro current hcurrent
  apply Holds.manage_bind (P := fun generations => generations = s.generations)
    (J := fun _ _ => Active controller.manager s.generations current) (F := fun _ _ => True)
  · exact Holds.verify_active_generation rfl (fun _ _ => trivial) fun h => h
  · rintro _ rfl
    exact hidle
  · exact fun _ _ _ _ => trivial
  rintro _ _ rfl hactive
  refine Prog.Holds.lift_bind hidle (fun _ _ => trivial) ?_
  intro transaction htransaction
  refine Prog.Holds.lift_bind hidle (fun _ _ => trivial) ?_
  intro g hg
  have hupdates : Updates controller inputs s record transaction g :=
    ⟨hreads, isSome_check hsettled, htransaction, ⟨model, hmodel, hg⟩, current,
      ⟨model, hmodel, hcurrent⟩, hactive⟩
  refine Holds.replace_record_bind hidle (fun _ => trivial) ?_
  refine Holds.manage_bind (publish_phases inputs.objects fault)
    (fun generations hphase => .publishing record transaction g hupdates generations hphase)
    (fun _ _ _ _ => trivial) ?_
  rintro _ generations hphase ⟨hfree, hnow⟩
  refine Holds.replace_record_bind (.publishing record transaction g hupdates generations hphase)
    (fun _ => trivial) ?_
  exact ⟨.updated record transaction g hupdates generations hphase hfree hnow, trivial⟩

/-! ## Recovering -/

/-- A recovery of a pending transaction, with the generation that the inputs give
for it. -/
structure Recovers (controller : ManagedProjectControllerV1) (inputs : ManagedInputs)
    (s : ManagedState) (record : ManagedRecordV1) (transaction : ExecutionId)
    (g : LeanBunGenerationV1) : Prop where
  reads : reads s record
  pending : record.pending_transaction = some transaction
  gives : Gives controller inputs transaction g
  begun : is_initial record transaction = true → s.generations.transactions transaction ≠ none

/-- The active record has the digest of the generation. -/
def committed (active : Option ActiveRecord) (g : LeanBunGenerationV1) : Bool :=
  active.any fun active => decide (active.generation = g.identity)

/-- The manager has recovered the pending generation; before that the active record
was read as `active`. -/
structure Settles (controller : ManagedProjectControllerV1) (inputs : ManagedInputs)
    (s : ManagedState) (record : ManagedRecordV1) (transaction : ExecutionId)
    (g : LeanBunGenerationV1) (active : Option ActiveRecord) (generations : ProjectState) : Prop where
  recovers : Recovers controller inputs s record transaction g
  active : read_active s.generations = .ok active
  phase : RecoverPhase controller.manager s.generations g generations
  recovered : ∃ result, Recovered controller.manager s.generations g result generations

/-- Where a recovery can be cut off. -/
inductive RecoveryPhase (controller : ManagedProjectControllerV1) (inputs : ManagedInputs)
    (s : ManagedState) : Stores
  | idle : RecoveryPhase controller inputs s s.record s.generations
  | dropped (record : ManagedRecordV1) (transaction : ExecutionId) (hreads : reads s record)
      (hpending : record.pending_transaction = some transaction)
      (hinitial : is_initial record transaction = true)
      (hunrecorded : s.generations.transactions transaction = none) :
      RecoveryPhase controller inputs s none s.generations
  | recovering (record : ManagedRecordV1) (transaction : ExecutionId) (g : LeanBunGenerationV1)
      (hrecovers : Recovers controller inputs s record transaction g) (generations : ProjectState)
      (hphase : RecoverPhase controller.manager s.generations g generations) :
      RecoveryPhase controller inputs s s.record generations
  | removed (record : ManagedRecordV1) (transaction : ExecutionId) (g : LeanBunGenerationV1)
      (hinitial : is_initial record transaction = true) (generations : ProjectState)
      (hsettles : Settles controller inputs s record transaction g none generations) :
      RecoveryPhase controller inputs s none generations
  | recovered (record : ManagedRecordV1) (transaction : ExecutionId) (g : LeanBunGenerationV1)
      (active : Option ActiveRecord) (hkept : is_initial record transaction = true → active ≠ none)
      (generations : ProjectState)
      (hsettles : Settles controller inputs s record transaction g active generations) :
      RecoveryPhase controller inputs s
        (some (record_bytes (recovered_record record transaction (committed active g)))) generations

/-- The state in which a recovery returns a status. -/
def RecoveredState (controller : ManagedProjectControllerV1) (inputs : ManagedInputs)
    (s s' : ManagedState) : Prop :=
  ∃ record transaction g active, Settles controller inputs s record transaction g active
      s'.generations ∧
    s'.record = some (record_bytes (recovered_record record transaction (committed active g)))

theorem remove_reservation_holds {P : Stores} {message : String} {text : Str}
    {Q : ManagedProjectStatusV1 → ManagedState → Prop} (hrecord : s.record = some text)
    (hs : P.of s) (hs' : P none s.generations) :
    Prog.Holds P.of Q (fun _ _ => True) (remove_reservation message) s := by
  unfold remove_reservation
  apply Prog.Holds.bind (J := fun _ s' => s' = { s with record := none })
  · refine Prog.holds_atomic.mpr ?_
    rw [if_pos (by rw [hrecord]; rfl)]
    exact ⟨hs, hs', fun _ _ => rfl, fun _ _ => trivial⟩
  · rintro _ _ - rfl
    exact Prog.holds_lift.mpr ⟨hs', fun _ ha => (by cases ha), fun _ _ => trivial⟩

theorem recover_phases (hs : Consistent controller.manager s.generations) (inputs : ManagedInputs) :
    Prog.Holds (RecoveryPhase controller inputs s).of
      (fun _ s' => RecoveredState controller inputs s s') (fun _ _ => True)
      (Managed.recover controller inputs) s := by
  refine holds_under_lease .idle (fun _ _ => trivial) fun _ => ?_
  have hidle : (RecoveryPhase controller inputs s).of { s with lease := true } := .idle
  refine Holds.read_record_bind hidle (fun _ => trivial) ?_
  intro record hreads
  cases hpending : record.pending_transaction with
  | none => exact Prog.holds_lift.mpr ⟨hidle, fun _ ha => (by cases ha), fun _ _ => trivial⟩
  | some transaction =>
  refine Prog.Holds.read_bind hidle (fun _ _ => trivial) ?_
  intro unrecorded hunrecorded
  have hunrecorded : (s.generations.transactions transaction).isNone = unrecorded :=
    Except.ok.inj hunrecorded
  by_cases hdrop : is_initial record transaction = true ∧ unrecorded = true
  · -- the adoption did not get as far as a transaction record
    rw [if_pos hdrop]
    refine remove_reservation_holds hreads.text hidle ?_
    exact .dropped record transaction hreads hpending hdrop.1
      (Option.isNone_iff_eq_none.mp (hunrecorded.trans hdrop.2))
  rw [if_neg hdrop]
  refine Prog.Holds.lift_bind hidle (fun _ _ => trivial) ?_
  intro model hmodel
  refine Prog.Holds.lift_bind hidle (fun _ _ => trivial) fun _ _ => ?_
  refine Prog.Holds.lift_bind hidle (fun _ _ => trivial) ?_
  intro g hg
  have hrecovers : Recovers controller inputs s record transaction g := by
    refine ⟨hreads, hpending, ⟨model, hmodel, hg⟩, fun hinitial hnone => hdrop ⟨hinitial, ?_⟩⟩
    rw [← hunrecorded, hnone]
    rfl
  have hmanager : Prog.Holds (RecoverPhase controller.manager s.generations g)
      (Recovered controller.manager s.generations g)
      (fun _ _ => ¬Recoverable controller.manager s.generations g)
      (Generation.recover controller.manager g) s.generations :=
    LeanBun.Generation.recover_phases hs.temps
  unfold recover_pending
  apply Holds.manage_bind (P := fun generations => generations = s.generations)
    (J := fun active _ => read_active s.generations = .ok active) (F := fun _ _ => True)
  · exact Prog.holds_read.mpr ⟨rfl, fun _ h => h, fun _ _ => trivial⟩
  · rintro _ rfl
    exact hidle
  · exact fun _ _ _ _ => trivial
  rintro active _ rfl hactive
  have hrecovering : ∀ generations, RecoverPhase controller.manager s.generations g generations →
      (RecoveryPhase controller inputs s).of ⟨s.record, true, generations⟩ :=
    fun generations hphase => .recovering record transaction g hrecovers generations hphase
  by_cases hremove : active.isNone ∧ is_initial record transaction = true
  · -- nothing is active: the adoption is given up
    rw [if_pos hremove]
    obtain rfl := Option.isNone_iff_eq_none.mp hremove.1
    refine Holds.manage_bind hmanager hrecovering (fun _ _ _ _ => trivial) ?_
    intro result generations hphase hrecovered
    refine remove_reservation_holds hreads.text (hrecovering generations hphase) ?_
    exact .removed record transaction g hremove.2 generations
      ⟨hrecovers, hactive, hphase, result, hrecovered⟩
  rw [if_neg hremove]
  refine Holds.manage_bind hmanager hrecovering (fun _ _ _ _ => trivial) ?_
  intro result generations hphase hrecovered
  have hsettles : Settles controller inputs s record transaction g active generations :=
    ⟨hrecovers, hactive, hphase, result, hrecovered⟩
  have hdone : (RecoveryPhase controller inputs s).of ⟨some (record_bytes
      (recovered_record record transaction (committed active g))), true, generations⟩ := by
    refine .recovered record transaction g active (fun hinitial hnone => hremove ⟨?_, hinitial⟩)
      generations hsettles
    rw [hnone]
    rfl
  refine Holds.replace_record_bind (hrecovering generations hphase) (fun _ => trivial) ?_
  refine Prog.Holds.lift_bind hdone (fun _ _ => trivial) ?_
  intro current _
  apply Holds.manage_bind (P := fun after => after = generations) (J := fun _ _ => True)
    (F := fun _ _ => True)
  · exact Holds.verify_active_generation rfl (fun _ _ => trivial) fun _ => trivial
  · rintro _ rfl
    exact hdone
  · exact fun _ _ _ _ => trivial
  rintro _ _ rfl -
  exact ⟨hdone, record, transaction, g, active, hsettles, rfl⟩

/-! ## Rolling back -/

/-- A rollback of an adopted project, with the two generations that the inputs
give. -/
structure RollsBack (controller : ManagedProjectControllerV1) (inputs : ManagedInputs)
    (s : ManagedState) (record : ManagedRecordV1) (previous : ExecutionId)
    (current retained : LeanBunGenerationV1) : Prop where
  reads : reads s record
  settled : record.pending_transaction = none
  named : record.previous_transaction = some previous
  current : Gives controller inputs record.active_transaction current
  retained : Gives controller inputs previous retained

/-- The record of a project that was rolled back. -/
def returned_record (record : ManagedRecordV1) (previous : ExecutionId) : ManagedRecordV1 :=
  { record with
    previous_transaction := some record.active_transaction
    active_transaction := previous }

/-- How a rollback ends: nothing has changed, or everything has. -/
inductive RollbackEnd (controller : ManagedProjectControllerV1) (inputs : ManagedInputs)
    (s : ManagedState) : Stores
  | idle : RollbackEnd controller inputs s s.record s.generations
  | returned (record : ManagedRecordV1) (previous : ExecutionId)
      (current retained : LeanBunGenerationV1)
      (hreturns : RollsBack controller inputs s record previous current retained)
      (hcurrent : Active controller.manager s.generations current)
      (hretained : Published s.generations retained)
      (hphase : RollbackPhase controller.manager s.generations current retained
        { activate s.generations retained with lock := none }) :
      RollbackEnd controller inputs s (some (record_bytes (returned_record record previous)))
        { activate s.generations retained with lock := none }

/-- Where a rollback can be cut off. -/
inductive ReturnPhase (controller : ManagedProjectControllerV1) (inputs : ManagedInputs)
    (s : ManagedState) : Stores
  | ended {text : Option Str} {generations : ProjectState}
      (hend : RollbackEnd controller inputs s text generations) :
      ReturnPhase controller inputs s text generations
  | returning (record : ManagedRecordV1) (previous : ExecutionId)
      (current retained : LeanBunGenerationV1)
      (hreturns : RollsBack controller inputs s record previous current retained)
      (generations : ProjectState)
      (hphase : RollbackPhase controller.manager s.generations current retained generations) :
      ReturnPhase controller inputs s s.record generations

theorem rollback_phases (hs : Consistent controller.manager s.generations) (inputs : ManagedInputs) :
    Prog.Holds (ReturnPhase controller inputs s).of
      (fun _ s' => (RollbackEnd controller inputs s).of s')
      (fun _ s' => (RollbackEnd controller inputs s).of s')
      (Managed.rollback controller inputs) s := by
  refine holds_under_lease (.ended .idle) (fun _ _ => .idle) fun _ => ?_
  have hidle : (ReturnPhase controller inputs s).of { s with lease := true } := .ended .idle
  refine Holds.read_record_bind hidle (fun _ => .idle) ?_
  intro record hreads
  refine Prog.Holds.lift_bind hidle (fun _ _ => .idle) ?_
  intro _ hsettled
  cases hprevious : record.previous_transaction with
  | none => exact Prog.holds_lift.mpr ⟨hidle, fun _ ha => (by cases ha), fun _ _ => .idle⟩
  | some previous =>
  refine Prog.Holds.lift_bind hidle (fun _ _ => .idle) ?_
  intro model hmodel
  refine Prog.Holds.lift_bind hidle (fun _ _ => .idle) fun _ _ => ?_
  refine Prog.Holds.lift_bind hidle (fun _ _ => .idle) ?_
  intro current hcurrent
  refine Prog.Holds.lift_bind hidle (fun _ _ => .idle) ?_
  intro retained hretained
  have hreturns : RollsBack controller inputs s record previous current retained :=
    ⟨hreads, isSome_check hsettled, hprevious, ⟨model, hmodel, hcurrent⟩, model, hmodel, hretained⟩
  refine Holds.manage_bind (LeanBun.Generation.rollback_phases fun hlocation hpublished =>
      clean_of_published hs hlocation hpublished)
    (fun generations hphase => .returning record previous current retained hreturns generations hphase)
    ?_ ?_
  · -- a rollback that the manager refuses changes nothing
    rintro _ _ - rfl
    exact .idle
  rintro _ _ hphase ⟨hactive, hpublished, rfl⟩
  have hdone := RollbackEnd.returned record previous current retained hreturns hactive hpublished
    hphase
  refine Holds.replace_record_bind
    (.returning record previous current retained hreturns _ hphase) (fun _ => hdone) ?_
  exact ⟨.ended hdone, hdone⟩

end LeanBun.Managed
