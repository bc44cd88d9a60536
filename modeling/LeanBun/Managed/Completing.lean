/-
The operations of the controller when nothing refuses them.

Each operation reads and checks, works in the project directory and replaces the
managed record. The statements follow an operation to the point where its work in
the directory begins: from there it can be cut off at any step of the manager, or
it returns.
-/
import LeanBun.Lib.Reaching
import LeanBun.Managed.Targets

set_option autoImplicit false

namespace LeanBun.Managed

open LeanBun.Lib LeanBun.Core LeanBun.Generation

variable {controller : ManagedProjectControllerV1} {s s' : ManagedState} {α β : Type}

/-! ## The parts of an operation -/

theorem reaches_manage {p q : ManagerProg α} {generations : ProjectState}
    (h : Prog.Reaches p s.generations q generations) :
    Prog.Reaches (manage p) s (manage q) { s with generations } := by
  refine Prog.Reaches.map_error ?_ _
  refine Prog.Reaches.zoom ?_ ?_ h _ rfl rfl
  · exact fun _ _ => rfl
  · exact fun _ _ _ => rfl

theorem manage_lift (x : Except LeanGenerationError α) :
    manage (Prog.lift x) = Prog.lift (x.mapError generation_error) := by
  cases x <;> rfl

/-- An operation of the manager that returns. -/
theorem reaches_manage_bind {p : ManagerProg β} {b : β} {generations : ProjectState}
    (h : p.run s.generations = (.ok b, generations)) (f : β → ManagedProg α) :
    Prog.Reaches (manage p >>= f) s (f b) { s with generations } := by
  have hreaches := (reaches_manage (Prog.reaches_run h)).bind f
  rw [manage_lift] at hreaches
  exact hreaches

/-- An operation of the manager that is cut off. -/
theorem crash_manage (p : ManagerProg α) (n : ℕ) (f : α → ManagedProg β) :
    ∃ k, (manage p >>= f).crash k s =
      { s with generations := p.crash n s.generations } := by
  obtain ⟨q, hq⟩ := Prog.reaches_crash p n s.generations
  exact ((reaches_manage hq).bind f).crash_here

theorem reaches_read_record {record : ManagedRecordV1} (h : reads s record)
    (f : ManagedRecordV1 → ManagedProg α) :
    Prog.Reaches (read_record >>= f) s (f record) s := by
  apply Prog.reaches_read
  obtain ⟨text, htext, hread⟩ := h
  rw [htext]
  exact hread

theorem reaches_replace_record {record : ManagedRecordV1}
    (h : byte_len (record_bytes record) ≤ MAX_RECORD_BYTES) (f : Unit → ManagedProg α) :
    Prog.Reaches (replace_record record >>= f) s (f ())
      { s with record := some (record_bytes record) } := by
  refine Prog.Reaches.bind (q := Prog.done ()) ?_ f
  unfold replace_record
  refine (Prog.reaches_write _).trans ?_
  apply Prog.reaches_run (x := .ok ())
  refine (Prog.run_atomic _ _ _).trans ?_
  dsimp only
  rw [stable_read_eq_ok.mpr ⟨rfl, h⟩]
  simp [bind, Except.bind]

theorem reaches_require_absent (h : s.record = none) (message : String)
    (f : Unit → ManagedProg α) : Prog.Reaches (require_absent message >>= f) s (f ()) s := by
  apply Prog.reaches_read
  rw [h]
  rfl

theorem reaches_create_record (h : s.record = none) (record : ManagedRecordV1)
    (f : Unit → ManagedProg α) :
    Prog.Reaches (create_record record >>= f) s (f ())
      { s with record := some (record_bytes record) } := by
  refine Prog.Reaches.bind (q := Prog.done ()) ?_ f
  unfold create_record
  refine (reaches_require_absent h _ _).trans ?_
  apply Prog.reaches_run (x := .ok ())
  refine (Prog.run_atomic _ _ _).trans ?_
  rw [h]
  rfl

/-- What is left of an operation under the lease. -/
def release (q : ManagedProg α) : ManagedProg α :=
  q.attempt >>= fun result => do
    release_operation_lease
    Prog.lift result

theorem reaches_under_lease {body q : ManagedProg α} (hfree : s.lease = false)
    (h : Prog.Reaches body { s with lease := true } q s') :
    Prog.Reaches (under_lease body) s (release q) s' := by
  unfold under_lease acquire_operation_lease release
  refine Prog.Reaches.trans ?_ (h.attempt.bind _)
  apply Prog.reaches_atomic
  rw [if_neg (by rw [hfree]; exact Bool.false_ne_true)]

theorem release_run {q : ManagedProg α} {x : ManagedResult α} {t : ManagedState}
    (h : q.run s = (x, t)) : (release q).run s = (x, t.left) := by
  have hattempt : (q.attempt : ManagedProg (Except ManagedProjectError α)).run s = (.ok x, t) := by
    rw [Prog.run_attempt, h]
  have hreaches : Prog.Reaches (release q) s (Prog.lift x) t.left :=
    (Prog.reaches_bind hattempt _).trans (Prog.reaches_write _)
  rw [hreaches.run_eq]
  cases x <;> rfl

/-- An operation that ends is cut off late enough. -/
theorem cut_run {operation : ManagedOperation} {x : ManagedResult ManagedProjectStatusV1}
    {t : ManagedState} (h : (operation.program controller).run s = (x, t)) :
    ∃ n, operation.cut controller n s = t.left := by
  obtain ⟨n, hn⟩ := Prog.crash_run (operation.program controller) s
  refine ⟨n, congrArg ManagedState.left (hn.trans ?_)⟩
  rw [h]

/-! ## Adopting -/

/-- The inputs of an adoption that gets to the publication of its generation. -/
structure Adopts (controller : ManagedProjectControllerV1) (target : Str) (expected_tree : Sha256)
    (inputs : ManagedInputs) (s : ManagedState) (transaction : ExecutionId)
    (model : ManagedModelV1) (g : LeanBunGenerationV1) : Prop where
  target_valid : valid_build_target target = true
  absent : s.record = none
  named : inputs.transaction = .ok transaction
  digest : inputs.management_input_sha256 = .ok model.management_input_sha256
  tree : inputs.reserved_tree = .ok expected_tree
  modelled : inputs.model = .ok model
  gives : model.generation controller.manager transaction = .ok g

/-- The record of a project that was adopted. -/
def adopted_record (record : ManagedRecordV1) : ManagedRecordV1 :=
  { record with pending_transaction := none }

theorem adopt_reaches {target : Str} {expected_tree : Sha256} {inputs : ManagedInputs}
    {transaction : ExecutionId} {model : ManagedModelV1} {g : LeanBunGenerationV1}
    (h : Adopts controller target expected_tree inputs s transaction model g)
    (fault : LeanGenerationFaultV1) {record : ManagedRecordV1}
    (hrecord : record = preparing_record controller target h.target_valid transaction
      model.management_input_sha256) :
    Prog.Reaches (adopt_declaration_with_fault controller target expected_tree inputs fault) s
      (manage (publish controller.manager inputs.objects g fault) >>= fun _ =>
        replace_record (adopted_record record) >>= fun _ =>
          pure (status_from (adopted_record record) g))
      { s with record := some (record_bytes record) } := by
  subst hrecord
  unfold adopt_declaration_with_fault
  refine (Prog.reaches_lift (ensure_ok h.target_valid _) _).trans ?_
  refine (reaches_require_absent h.absent _ _).trans ?_
  refine (Prog.reaches_lift h.named _).trans ?_
  refine (Prog.reaches_lift h.digest _).trans ?_
  refine (reaches_create_record h.absent _ _).trans ?_
  refine (Prog.reaches_lift h.tree _).trans ?_
  refine (Prog.reaches_lift (if_neg (not_not_intro rfl)) _).trans ?_
  refine (Prog.reaches_lift h.modelled _).trans ?_
  refine (Prog.reaches_lift (if_neg (not_not_intro rfl)) _).trans ?_
  exact Prog.reaches_lift h.gives _

/-- **An adoption returns** when its publication does. -/
theorem adopt_returns {target : Str} {expected_tree : Sha256} {inputs : ManagedInputs}
    {transaction : ExecutionId} {model : ManagedModelV1} {g : LeanBunGenerationV1}
    (h : Adopts controller target expected_tree inputs s transaction model g)
    {fault : LeanGenerationFaultV1} {record : ManagedRecordV1}
    (hrecord : record = preparing_record controller target h.target_valid transaction
      model.management_input_sha256) {result : LeanGenerationOutcomeV1} {generations : ProjectState}
    (hpublish : (publish controller.manager inputs.objects g fault).run s.generations =
      (.ok result, generations))
    (hsmall : byte_len (record_bytes (adopted_record record)) ≤ MAX_RECORD_BYTES) :
    (adopt_declaration_with_fault controller target expected_tree inputs fault).run s =
      (.ok (status_from (adopted_record record) g),
        { s with record := some (record_bytes (adopted_record record)), generations }) := by
  refine (adopt_reaches h fault hrecord).run_eq.trans ?_
  refine (Prog.Reaches.run_eq (reaches_manage_bind
    (s := { s with record := some (record_bytes record) }) hpublish _)).trans ?_
  exact (reaches_replace_record hsmall _).run_eq

/-- **An adoption is cut off** wherever its publication is. -/
theorem adopt_cut {target : Str} {expected_tree : Sha256} {inputs : ManagedInputs}
    {transaction : ExecutionId} {model : ManagedModelV1} {g : LeanBunGenerationV1}
    (h : Adopts controller target expected_tree inputs s transaction model g)
    (fault : LeanGenerationFaultV1) {record : ManagedRecordV1}
    (hrecord : record = preparing_record controller target h.target_valid transaction
      model.management_input_sha256) (n : ℕ) :
    ∃ k, (ManagedOperation.adopt target expected_tree inputs fault).cut controller k s =
      ⟨some (record_bytes record), false,
        (publish controller.manager inputs.objects g fault).crash n s.generations⟩ := by
  obtain ⟨k, hk⟩ := crash_manage (s := { s with record := some (record_bytes record) })
    (publish controller.manager inputs.objects g fault) n fun _ =>
      replace_record (adopted_record record) >>= fun _ =>
        pure (status_from (adopted_record record) g)
  obtain ⟨m, hm⟩ := (adopt_reaches h fault hrecord).crash k
  exact ⟨m, congrArg ManagedState.left (hm.trans hk)⟩

/-! ## Updating -/

/-- The inputs of an update that gets to the publication of its generation. -/
structure Upgrades (controller : ManagedProjectControllerV1) (inputs : ManagedInputs)
    (s : ManagedState) (record : ManagedRecordV1) (transaction : ExecutionId)
    (model : ManagedModelV1) (current g : LeanBunGenerationV1) : Prop where
  free : s.lease = false
  reads : reads s record
  settled : record.pending_transaction = none
  modelled : inputs.model = .ok model
  same : record.management_input_sha256 = model.management_input_sha256
  verifies : model.generation controller.manager record.active_transaction = .ok current
  active : Active controller.manager s.generations current
  named : inputs.transaction = .ok transaction
  gives : model.generation controller.manager transaction = .ok g
  small : byte_len (record_bytes (updating_record record transaction)) ≤ MAX_RECORD_BYTES

theorem settled_check {record : ManagedRecordV1} (h : record.pending_transaction = none)
    (error : ManagedProjectError) :
    (if record.pending_transaction.isSome then .error error else .ok () : ManagedResult Unit) =
      .ok () := by
  rw [h]
  rfl

theorem model_check {record : ManagedRecordV1} {model : ManagedModelV1}
    (h : record.management_input_sha256 = model.management_input_sha256) :
    require_model_identity model record = .ok () := if_neg (not_not_intro h)

/-- The check of the active generation changes nothing. -/
theorem verify_active_run {manager : LeanGenerationManagerV1} {generations : ProjectState}
    {g : LeanBunGenerationV1} (h : Active manager generations g) :
    (verify_active_generation manager g).run generations = (.ok (), generations) := by
  apply Prog.Holds.run_eq (I := fun _ => True)
  exact Holds.verify_active_generation trivial (fun hnot => absurd h hnot) fun _ => ⟨rfl, rfl⟩

theorem update_reaches {inputs : ManagedInputs} {record : ManagedRecordV1}
    {transaction : ExecutionId} {model : ManagedModelV1} {current g : LeanBunGenerationV1}
    (h : Upgrades controller inputs s record transaction model current g)
    (fault : LeanGenerationFaultV1) :
    Prog.Reaches (update_with_fault controller inputs fault) s
      (release (manage (publish controller.manager inputs.objects g fault) >>= fun _ =>
        replace_record (updated_record record transaction) >>= fun _ =>
          pure (status_from (updated_record record transaction) g)))
      { s with record := some (record_bytes (updating_record record transaction)), lease := true } := by
  refine reaches_under_lease h.free ?_
  refine (reaches_read_record (s := { s with lease := true }) (show reads _ record from h.reads) _).trans ?_
  refine (Prog.reaches_lift (settled_check h.settled _) _).trans ?_
  refine (Prog.reaches_lift h.modelled _).trans ?_
  refine (Prog.reaches_lift (model_check h.same) _).trans ?_
  refine (Prog.reaches_lift h.verifies _).trans ?_
  refine (reaches_manage_bind (s := { s with lease := true }) (verify_active_run h.active) _).trans ?_
  refine (Prog.reaches_lift h.named _).trans ?_
  refine (Prog.reaches_lift h.gives _).trans ?_
  exact reaches_replace_record h.small _

/-- **An update returns** when its publication does. -/
theorem update_returns {inputs : ManagedInputs} {record : ManagedRecordV1}
    {transaction : ExecutionId} {model : ManagedModelV1} {current g : LeanBunGenerationV1}
    (h : Upgrades controller inputs s record transaction model current g)
    {fault : LeanGenerationFaultV1} {result : LeanGenerationOutcomeV1} {generations : ProjectState}
    (hpublish : (publish controller.manager inputs.objects g fault).run s.generations =
      (.ok result, generations))
    (hsmall : byte_len (record_bytes (updated_record record transaction)) ≤ MAX_RECORD_BYTES) :
    (update_with_fault controller inputs fault).run s =
      (.ok (status_from (updated_record record transaction) g),
        ⟨some (record_bytes (updated_record record transaction)), false, generations⟩) := by
  refine (update_reaches h fault).run_eq.trans ?_
  apply release_run (t := ⟨some (record_bytes (updated_record record transaction)), true,
    generations⟩)
  refine (Prog.Reaches.run_eq (reaches_manage_bind
    (s := ⟨some (record_bytes (updating_record record transaction)), true, s.generations⟩)
    hpublish _)).trans ?_
  exact (reaches_replace_record hsmall _).run_eq

/-! ## Recovering -/

/-- The inputs of a recovery that gets to the pending generation. -/
structure Restores (controller : ManagedProjectControllerV1) (inputs : ManagedInputs)
    (s : ManagedState) (record : ManagedRecordV1) (transaction : ExecutionId)
    (model : ManagedModelV1) (g : LeanBunGenerationV1) : Prop where
  free : s.lease = false
  reads : reads s record
  pending : record.pending_transaction = some transaction
  recorded : s.generations.transactions transaction ≠ none
  modelled : inputs.model = .ok model
  same : record.management_input_sha256 = model.management_input_sha256
  gives : model.generation controller.manager transaction = .ok g

theorem recover_reaches {inputs : ManagedInputs} {record : ManagedRecordV1}
    {transaction : ExecutionId} {model : ManagedModelV1} {g : LeanBunGenerationV1}
    (h : Restores controller inputs s record transaction model g) :
    Prog.Reaches (Managed.recover controller inputs) s
      (release (recover_pending controller record model transaction g)) { s with lease := true } := by
  have hrecorded : (s.generations.transactions transaction).isNone = false := by
    rw [Option.isNone_eq_false_iff]
    exact Option.isSome_iff_ne_none.mpr h.recorded
  refine reaches_under_lease h.free ?_
  refine (reaches_read_record (s := { s with lease := true }) (show reads _ record from h.reads) _).trans ?_
  rw [h.pending]
  refine (Prog.reaches_read (s := { s with lease := true }) (b := false)
    (g := fun s => .ok (s.generations.transactions transaction).isNone)
    (congrArg Except.ok hrecorded) _).trans ?_
  rw [if_neg fun hdrop => Bool.false_ne_true hdrop.2]
  refine (Prog.reaches_lift h.modelled _).trans ?_
  refine (Prog.reaches_lift (model_check h.same) _).trans ?_
  exact Prog.reaches_lift h.gives _

/-- **A recovery settles** the pending transaction when the manager's recovery returns and
something is active, whatever comes of the check that follows. -/
theorem recover_settles {inputs : ManagedInputs} {record : ManagedRecordV1}
    {transaction : ExecutionId} {model : ManagedModelV1} {g : LeanBunGenerationV1}
    (h : Restores controller inputs s record transaction model g) {active : ActiveRecord}
    (hactive : read_active s.generations = .ok (some active)) {result : LeanGenerationRecoveryV1}
    {generations : ProjectState}
    (hrecover : (Generation.recover controller.manager g).run s.generations =
      (.ok result, generations)) {settled : ManagedRecordV1}
    (hsettled : settled = recovered_record record transaction (committed (some active) g))
    (hsmall : byte_len (record_bytes settled) ≤ MAX_RECORD_BYTES) :
    ((Managed.recover controller inputs).run s).2 =
      ⟨some (record_bytes settled), false, generations⟩ := by
  subst hsettled
  have hread : (active_generation_reference).run s.generations =
      (.ok (some active), s.generations) := by
    unfold active_generation_reference
    refine (Prog.run_atomic _ _ _).trans ?_
    rw [hactive]
  have hreplaced : Prog.Reaches (recover_pending controller record model transaction g)
      { s with lease := true }
      (do
        let current ← Prog.lift (model.generation controller.manager
          (recovered_record record transaction (committed (some active) g)).active_transaction)
        manage (verify_active_generation controller.manager current)
        return status_from (recovered_record record transaction (committed (some active) g)) current)
      ⟨some (record_bytes (recovered_record record transaction (committed (some active) g))), true,
        generations⟩ := by
    unfold recover_pending
    refine (reaches_manage_bind (s := { s with lease := true }) hread _).trans ?_
    rw [if_neg fun hremove => Bool.false_ne_true hremove.1]
    refine (reaches_manage_bind (s := { s with lease := true }) hrecover _).trans ?_
    exact reaches_replace_record hsmall _
  -- the check reads only
  generalize hstate : (⟨some (record_bytes (recovered_record record transaction
    (committed (some active) g))), true, generations⟩ : ManagedState) = after at hreplaced
  have hchecked : Prog.Holds (fun _ => True) (fun _ s' => s' = after) (fun _ s' => s' = after)
      (do
        let current ← Prog.lift (model.generation controller.manager
          (recovered_record record transaction (committed (some active) g)).active_transaction)
        manage (verify_active_generation controller.manager current)
        return status_from (recovered_record record transaction (committed (some active) g)) current)
      after := by
    refine Prog.Holds.lift_bind trivial (fun _ _ => rfl) fun current _ => ?_
    apply Holds.manage_bind (P := fun generations => generations = after.generations)
      (J := fun _ _ => True) (F := fun _ _ => True)
    · exact Holds.verify_active_generation rfl (fun _ _ => trivial) fun _ => trivial
    · exact fun _ _ => trivial
    · rintro _ _ rfl -
      rfl
    · rintro _ _ rfl -
      exact ⟨trivial, rfl⟩
  have hend := hchecked.run
  rw [← hreplaced.run_eq] at hend
  have hrun : ∃ x, (recover_pending controller record model transaction g).run
      { s with lease := true } = (x, after) := by
    rcases hend with ⟨a, ha, hafter⟩ | ⟨e, he, hafter⟩
    · exact ⟨_, Prod.ext rfl hafter⟩
    · exact ⟨_, Prod.ext rfl hafter⟩
  obtain ⟨x, hx⟩ := hrun
  rw [(recover_reaches h).run_eq, release_run hx, ← hstate]
  rfl

/-- **A recovery drops** the reservation of an adoption that did not get as far as a
transaction record, and nothing else. -/
theorem recover_drops {inputs : ManagedInputs} {record : ManagedRecordV1}
    {transaction : ExecutionId} (hfree : s.lease = false) (hreads : reads s record)
    (hpending : record.pending_transaction = some transaction)
    (hinitial : is_initial record transaction = true)
    (hunrecorded : s.generations.transactions transaction = none) :
    ∃ e, (Managed.recover controller inputs).run s = (.error e, ⟨none, false, s.generations⟩) := by
  have hnone : (s.generations.transactions transaction).isNone = true := by
    rw [hunrecorded]
    rfl
  refine ⟨⟨.NotAdopted, "failed initial intake reservation was removed; add again explicitly"⟩, ?_⟩
  refine (Prog.Reaches.run_eq (reaches_under_lease hfree ?_)).trans
    (release_run (q := remove_reservation
      "failed initial intake reservation was removed; add again explicitly")
      (s := { s with lease := true }) (t := ⟨none, true, s.generations⟩) ?_)
  · refine (reaches_read_record (s := { s with lease := true }) (show reads _ record from hreads) _).trans ?_
    rw [hpending]
    refine (Prog.reaches_read (s := { s with lease := true }) (b := true)
      (g := fun s => .ok (s.generations.transactions transaction).isNone)
      (congrArg Except.ok hnone) _).trans ?_
    rw [if_pos ⟨hinitial, rfl⟩]
    exact .refl _ _
  · unfold remove_reservation remove_record
    refine (Prog.Reaches.run_eq (Prog.reaches_atomic (b := ()) (t := ⟨none, true, s.generations⟩)
      ?_ _)).trans rfl
    rw [hreads.text]
    rfl

/-! ## Rolling back -/

/-- The inputs of a rollback that gets to the manager's. -/
structure Reverts (controller : ManagedProjectControllerV1) (inputs : ManagedInputs)
    (s : ManagedState) (record : ManagedRecordV1) (previous : ExecutionId)
    (model : ManagedModelV1) (current retained : LeanBunGenerationV1) : Prop where
  free : s.lease = false
  reads : reads s record
  settled : record.pending_transaction = none
  named : record.previous_transaction = some previous
  modelled : inputs.model = .ok model
  same : record.management_input_sha256 = model.management_input_sha256
  verifies : model.generation controller.manager record.active_transaction = .ok current
  gives : model.generation controller.manager previous = .ok retained

theorem rollback_reaches {inputs : ManagedInputs} {record : ManagedRecordV1}
    {previous : ExecutionId} {model : ManagedModelV1} {current retained : LeanBunGenerationV1}
    (h : Reverts controller inputs s record previous model current retained) :
    Prog.Reaches (Managed.rollback controller inputs) s
      (release (manage (rollback_active_generation controller.manager current retained) >>= fun _ =>
        replace_record (returned_record record previous) >>= fun _ =>
          pure (status_from (returned_record record previous) retained))) { s with lease := true } := by
  refine reaches_under_lease h.free ?_
  refine (reaches_read_record (s := { s with lease := true }) (show reads _ record from h.reads) _).trans ?_
  refine (Prog.reaches_lift (settled_check h.settled _) _).trans ?_
  rw [h.named]
  refine (Prog.reaches_lift h.modelled _).trans ?_
  refine (Prog.reaches_lift (model_check h.same) _).trans ?_
  refine (Prog.reaches_lift h.verifies _).trans ?_
  exact Prog.reaches_lift h.gives _

/-- The record of the rollback is as long as the one before. -/
theorem returned_record_small {record : ManagedRecordV1} {previous : ExecutionId}
    (h : record.previous_transaction = some previous) :
    byte_len (record_bytes (returned_record record previous)) = byte_len (record_bytes record) := by
  have hid : ∀ t : ExecutionId, byte_len t.as_str = 36 := by
    intro t
    rw [byte_len_ascii, t.length]
    intro c hc
    rcases t.chars c hc with rfl | hhex
    · decide
    · unfold is_lower_hex at hhex
      rw [decide_eq_true_eq] at hhex
      rcases hhex with ⟨-, hdigit⟩ | ⟨-, hletter⟩
      · exact le_trans (b := '9'.toNat) hdigit (by decide)
      · exact le_trans (b := 'f'.toNat) hletter (by decide)
  unfold record_bytes
  rw [byte_len_field_record, byte_len_field_record]
  unfold record_fields returned_record optional_transaction_text
  simp only [List.map_cons, List.map_nil, List.sum_cons, List.sum_nil, h, Option.elim_some, hid]

/-- **A rollback returns** when the manager's does. -/
theorem rollback_returns {inputs : ManagedInputs} {record : ManagedRecordV1}
    {previous : ExecutionId} {model : ManagedModelV1} {current retained : LeanBunGenerationV1}
    (h : Reverts controller inputs s record previous model current retained)
    {generations : ProjectState}
    (hrollback : (rollback_active_generation controller.manager current retained).run s.generations =
      (.ok (), generations)) :
    (Managed.rollback controller inputs).run s =
      (.ok (status_from (returned_record record previous) retained),
        ⟨some (record_bytes (returned_record record previous)), false, generations⟩) := by
  have hsmall : byte_len (record_bytes (returned_record record previous)) ≤ MAX_RECORD_BYTES := by
    rw [returned_record_small h.named]
    obtain ⟨text, htext, hread⟩ := h.reads
    obtain ⟨rfl, -, hsmall⟩ := read_text_eq_ok hread
    exact hsmall
  refine (rollback_reaches h).run_eq.trans ?_
  apply release_run (t := ⟨some (record_bytes (returned_record record previous)), true,
    generations⟩)
  refine (Prog.Reaches.run_eq (reaches_manage_bind (s := { s with lease := true })
    hrollback _)).trans ?_
  exact (reaches_replace_record hsmall _).run_eq

/-- **A rollback is cut off** wherever the manager's is. -/
theorem rollback_cut {inputs : ManagedInputs} {record : ManagedRecordV1}
    {previous : ExecutionId} {model : ManagedModelV1} {current retained : LeanBunGenerationV1}
    (h : Reverts controller inputs s record previous model current retained) (n : ℕ) :
    ∃ k, (ManagedOperation.rollback inputs).cut controller k s = ⟨s.record, false,
      (rollback_active_generation controller.manager current retained).crash n s.generations⟩ := by
  obtain ⟨k, hk⟩ := crash_manage (s := { s with lease := true })
    (rollback_active_generation controller.manager current retained) n fun _ =>
      replace_record (returned_record record previous) >>= fun _ =>
        pure (status_from (returned_record record previous) retained)
  obtain ⟨q, hq⟩ := Prog.reaches_crash (manage (rollback_active_generation controller.manager current
    retained) >>= fun _ => replace_record (returned_record record previous) >>= fun _ =>
      pure (status_from (returned_record record previous) retained)) k { s with lease := true }
  obtain ⟨m, hm⟩ := ((rollback_reaches h).trans (hq.attempt.bind _)).crash_here
  exact ⟨m, congrArg ManagedState.left (hm.trans hk)⟩

end LeanBun.Managed
