/-
Records that can be read back.

The writer takes every target that `validate_target` accepts and every path; the reader
refuses a field with a control character. The two agree except on the characters that
only the reader calls control characters: in a target those from U+0080 to U+009F, in a
path all of them. A record without them is read back as it was written, and so is every
record of a run that adopts no other.
-/
import LeanBun.Managed.Pairing

set_option autoImplicit false

namespace LeanBun.Managed

open LeanBun.Lib LeanBun.Core LeanBun.Generation

/-! ## What the reader takes -/

/-- None of the control characters that a target may have. -/
def NoLateControl (target : Str) : Prop := ∀ c ∈ target, ¬(0x80 ≤ c.toNat ∧ c.toNat ≤ 0x9f)

theorem is_control_eq_false {c : Char} : is_control c = false ↔
    ¬c.toNat ≤ 0x1f ∧ ¬(0x7f ≤ c.toNat ∧ c.toNat ≤ 0x9f) := by
  unfold is_control
  rw [Bool.or_eq_false_iff, decide_eq_false_iff_not, decide_eq_false_iff_not]
  omega

/-- The writer has refused the other control characters. -/
theorem clean_target_iff {target : Str} (h : valid_build_target target = true) :
    clean_value target = true ↔ NoLateControl target := by
  unfold valid_build_target at h
  simp only [Bool.and_eq_true, decide_eq_true_eq, Bool.not_eq_true', List.any_eq_false,
    Bool.or_eq_true, not_or] at h
  obtain ⟨⟨⟨⟨hlength, -⟩, -⟩, -⟩, hearly⟩ := h
  have hne : target ≠ [] := by
    rintro rfl
    exact absurd hlength (by decide)
  rw [plain_path_clean hne, plain_path, Bool.not_eq_true', List.any_eq_false]
  simp only [Bool.not_eq_true, is_control_eq_false]
  refine ⟨fun hclean c hc hlate => ?_, fun hlate c hc => ?_⟩
  · have hcontrol := hclean c hc
    omega
  · have hc1 := hearly c hc
    have hc2 := hlate c hc
    omega

theorem parse_record_bytes_iff_clean {record : ManagedRecordV1} :
    parse_record (record_bytes record) = .ok record ↔ clean_record record :=
  ⟨fun h => (parse_record_eq_ok h).2, parse_record_bytes⟩

/-- **One record.** It is read back exactly when its path and its target have no character
that only the reader refuses. -/
theorem parse_record_bytes_iff_control {record : ManagedRecordV1} (hroot : record.project_root ≠ []) :
    parse_record (record_bytes record) = .ok record ↔
      plain_path record.project_root = true ∧ NoLateControl record.target := by
  rw [parse_record_bytes_iff_clean, clean_record, plain_path_clean hroot,
    clean_target_iff record.target_valid]

/-! ## Runs -/

/-- The operation adopts no target that only the writer takes. -/
def ManagedOperation.plain : ManagedOperation → Prop
  | .adopt target _ _ _ => NoLateControl target
  | _ => True

/-- The record, if there is one, is that of a clean record. -/
def Readable : Stores := fun text _ =>
  ∀ value, text = some value → ∃ record, value = record_bytes record ∧ clean_record record

variable {controller : ManagedProjectControllerV1} {s : ManagedState}

theorem readable_some {record : ManagedRecordV1} {generations : ProjectState}
    (h : clean_record record) : Readable (some (record_bytes record)) generations :=
  fun _ hvalue => ⟨record, (Option.some.inj hvalue).symm, h⟩

theorem readable_none {generations : ProjectState} : Readable none generations :=
  fun _ hvalue => by cases hvalue

/-- What is read is clean. -/
theorem reads.clean {record : ManagedRecordV1} (h : reads s record) : clean_record record := by
  obtain ⟨_, _, hread⟩ := h
  exact (read_text_eq_ok hread).2.1

section Steps

variable {α : Type} {Q : α → ManagedState → Prop} {record : ManagedRecordV1}

/-- The manager does not touch the record. -/
theorem readable_manage {β : Type} {p : ManagerProg β} {f : β → ManagedProg α} (hs : Readable.of s)
    (hrest : ∀ b s', Readable.of s' →
      Prog.Holds Readable.of (fun _ _ => True) (fun _ _ => True) (f b) s') :
    Prog.Holds Readable.of (fun _ _ => True) (fun _ _ => True) (manage p >>= f) s :=
  Holds.manage_bind (Prog.holds_of_run p s.generations) (fun _ _ => hs) (fun _ _ _ _ => trivial)
    fun b _ _ _ => hrest b _ hs

theorem readable_check {β : Type} {x : ManagedResult β} {f : β → ManagedProg α} (hs : Readable.of s)
    (hrest : ∀ b, Prog.Holds Readable.of (fun _ _ => True) (fun _ _ => True) (f b) s) :
    Prog.Holds Readable.of (fun _ _ => True) (fun _ _ => True) (Prog.lift x >>= f) s :=
  Prog.Holds.lift_bind hs (fun _ _ => trivial) fun b _ => hrest b

/-- Another clean record takes the place of the record. -/
theorem readable_replace {f : Unit → ManagedProg α} (hs : Readable.of s) (hclean : clean_record record)
    (hrest : ∀ s', Readable.of s' →
      Prog.Holds Readable.of (fun _ _ => True) (fun _ _ => True) (f ()) s') :
    Prog.Holds Readable.of (fun _ _ => True) (fun _ _ => True) (replace_record record >>= f) s :=
  Holds.replace_record_bind hs (fun _ => trivial) (hrest _ (readable_some hclean))

end Steps

theorem readable_adopt (hs : Readable.of s) {target : Str} (hproject : controller.project ≠ [])
    (hplain : plain_path controller.project = true) (htarget : NoLateControl target) (expected_tree : Sha256)
    (inputs : ManagedInputs) (fault : LeanGenerationFaultV1) :
    Prog.Holds Readable.of (fun _ _ => True) (fun _ _ => True)
      (adopt_declaration_with_fault controller target expected_tree inputs fault) s := by
  unfold adopt_declaration_with_fault
  refine readable_check hs ?_
  rintro ⟨target_valid⟩
  refine Prog.Holds.read_bind hs (fun _ _ => trivial) fun _ _ => ?_
  refine readable_check hs fun transaction => ?_
  refine readable_check hs fun management_input_sha256 => ?_
  dsimp only
  have hclean : clean_record (preparing_record controller target target_valid transaction
      management_input_sha256) :=
    ⟨(plain_path_clean hproject).trans hplain, (clean_target_iff target_valid).mpr htarget⟩
  generalize preparing_record controller target target_valid transaction management_input_sha256 =
    record at hclean
  apply Prog.Holds.bind (J := fun _ _ => True)
  · unfold create_record
    refine Prog.Holds.read_bind hs (fun _ _ => trivial) fun _ _ => ?_
    refine Prog.holds_atomic.mpr ⟨hs, ?_, fun _ _ => trivial, fun _ _ => trivial⟩
    split
    · exact hs
    · exact readable_some hclean
  intro _ t ht _
  refine readable_check ht fun _ => ?_
  refine readable_check ht fun _ => ?_
  refine readable_check ht fun model => ?_
  refine readable_check ht fun _ => ?_
  refine readable_check ht fun generation => ?_
  refine readable_manage ht fun _ u hu => ?_
  have hactive : clean_record { record with pending_transaction := none } := hclean
  exact readable_replace hu hactive fun v hv => ⟨hv, trivial⟩

theorem readable_update (hs : Readable.of s) (inputs : ManagedInputs) (fault : LeanGenerationFaultV1) :
    Prog.Holds Readable.of (fun _ _ => True) (fun _ _ => True)
      (update_with_fault controller inputs fault) s := by
  unfold update_with_fault
  refine holds_under_lease hs (fun _ _ => trivial) fun _ => ?_
  have hs : Readable.of { s with lease := true } := hs
  refine Holds.read_record_bind hs (fun _ => trivial) fun record hreads => ?_
  refine readable_check hs fun _ => ?_
  refine readable_check hs fun model => ?_
  refine readable_check hs fun _ => ?_
  refine readable_check hs fun current => ?_
  refine readable_manage hs fun _ t ht => ?_
  refine readable_check ht fun transaction => ?_
  refine readable_check ht fun candidate => ?_
  have hpending : clean_record { record with pending_transaction := some transaction } :=
    hreads.clean
  refine readable_replace ht hpending fun u hu => ?_
  refine readable_manage hu fun _ v hv => ?_
  have hupdated : clean_record (updated_record record transaction) := hreads.clean
  exact readable_replace hv hupdated fun w hw => ⟨hw, trivial⟩

theorem readable_remove (hs : Readable.of s) (message : String) :
    Prog.Holds Readable.of (fun _ _ => True) (fun _ _ => True) (remove_reservation message) s := by
  unfold remove_reservation remove_record
  apply Prog.Holds.bind (J := fun _ _ => True)
  · refine Prog.holds_atomic.mpr ⟨hs, ?_, fun _ _ => trivial, fun _ _ => trivial⟩
    split
    · exact readable_none
    · exact hs
  · exact fun _ t ht _ => Prog.holds_lift.mpr ⟨ht, fun _ _ => trivial, fun _ _ => trivial⟩

theorem readable_recover (hs : Readable.of s) (inputs : ManagedInputs) :
    Prog.Holds Readable.of (fun _ _ => True) (fun _ _ => True) (recover controller inputs) s := by
  unfold recover
  refine holds_under_lease hs (fun _ _ => trivial) fun _ => ?_
  have hs : Readable.of { s with lease := true } := hs
  refine Holds.read_record_bind hs (fun _ => trivial) fun record hreads => ?_
  cases record.pending_transaction with
  | none => exact Prog.holds_lift.mpr ⟨hs, fun _ _ => trivial, fun _ _ => trivial⟩
  | some transaction =>
    refine Prog.Holds.read_bind hs (fun _ _ => trivial) fun unrecorded _ => ?_
    split
    · exact readable_remove hs _
    refine readable_check hs fun model => ?_
    refine readable_check hs fun _ => ?_
    refine readable_check hs fun pending => ?_
    unfold recover_pending
    refine readable_manage hs fun active t ht => ?_
    split
    · refine readable_manage ht fun _ u hu => ?_
      exact readable_remove hu _
    refine readable_manage ht fun _ u hu => ?_
    -- only the transactions of the record change
    have hrecovered : ∀ committed, clean_record (recovered_record record transaction committed) := by
      intro committed
      cases committed <;> exact hreads.clean
    refine readable_replace hu (hrecovered _) fun v hv => ?_
    refine readable_check hv fun current => ?_
    exact readable_manage hv fun _ w hw => ⟨hw, trivial⟩

theorem readable_rollback (hs : Readable.of s) (inputs : ManagedInputs) :
    Prog.Holds Readable.of (fun _ _ => True) (fun _ _ => True) (rollback controller inputs) s := by
  unfold rollback
  refine holds_under_lease hs (fun _ _ => trivial) fun _ => ?_
  have hs : Readable.of { s with lease := true } := hs
  refine Holds.read_record_bind hs (fun _ => trivial) fun record hreads => ?_
  refine readable_check hs fun _ => ?_
  cases record.previous_transaction with
  | none => exact Prog.holds_lift.mpr ⟨hs, fun _ _ => trivial, fun _ _ => trivial⟩
  | some previous =>
    refine readable_check hs fun model => ?_
    refine readable_check hs fun _ => ?_
    refine readable_check hs fun current => ?_
    refine readable_check hs fun retained => ?_
    refine readable_manage hs fun _ t ht => ?_
    have hreturned : clean_record (returned_record record previous) := hreads.clean
    exact readable_replace ht hreturned fun u hu => ⟨hu, trivial⟩

/-- **Runs.** Every record that a run of plain adoptions and other operations leaves behind,
cut off anywhere, is the text of a clean record. -/
theorem Run.readable (hproject : controller.project ≠ []) (hplain : plain_path controller.project = true)
    (h : Run controller (fun _ operation _ => operation.plain) s) : Readable.of s := by
  induction h with
  | initial => exact readable_none
  | step _ operation n hallowed ih =>
    cases operation with
    | adopt target expected_tree inputs fault =>
      exact cut_of (readable_adopt ih hproject hplain hallowed expected_tree inputs fault) n
    | update inputs fault => exact cut_of (readable_update ih inputs fault) n
    | recover inputs => exact cut_of (readable_recover ih inputs) n
    | rollback inputs => exact cut_of (readable_rollback ih inputs) n

/-- **Records are read back** exactly when no path and no target has a character that only
the reader refuses: each record by itself, and so every record of a run. -/
theorem managed_records_read_back_iff (controller : ManagedProjectControllerV1)
    (hproject : controller.project.head? = some '/') :
    (∀ record : ManagedRecordV1, record.project_root = controller.project →
      (parse_record (record_bytes record) = .ok record ↔
        plain_path controller.project = true ∧ NoLateControl record.target)) ∧
    (plain_path controller.project = true → ∀ s,
      Run controller (fun _ operation _ => operation.plain) s → ∀ text, s.record = some text →
        ∃ record, text = record_bytes record ∧ parse_record text = .ok record) := by
  have hne : controller.project ≠ [] := by
    intro hnil
    rw [hnil] at hproject
    cases hproject
  refine ⟨fun record hroot => ?_, fun hplain s hrun text htext => ?_⟩
  · rw [← hroot]
    exact parse_record_bytes_iff_control (hroot ▸ hne)
  · obtain ⟨record, rfl, hclean⟩ := Run.readable hne hplain hrun text htext
    exact ⟨record, rfl, parse_record_bytes hclean⟩

/-- A project that adopts a target with a plain name. -/
theorem managed_records_read_back_sample :
    (∀ record : ManagedRecordV1, record.project_root = "/project".toList →
      (parse_record (record_bytes record) = .ok record ↔
        plain_path "/project".toList = true ∧ NoLateControl record.target)) ∧
    (plain_path "/project".toList = true → ∀ s,
      Run ⟨"/project".toList, "/state".toList⟩ (fun _ operation _ => operation.plain) s →
        ∀ text, s.record = some text →
          ∃ record, text = record_bytes record ∧ parse_record text = .ok record) :=
  managed_records_read_back_iff ⟨"/project".toList, "/state".toList⟩ rfl

theorem unreadable_id_valid :
    valid_execution_id "00000000-0000-4000-8000-000000000001".toList = true := by decide

/-- The record of an adoption whose target has a character that only the reader refuses. -/
def unreadable_record : ManagedRecordV1 :=
  preparing_record ⟨"/project".toList, "/state".toList⟩ "Main".toList (by decide)
    ⟨"00000000-0000-4000-8000-000000000001".toList, unreadable_id_valid⟩ (digest [])

/-- The adoption writes it, and it is not read back. -/
theorem unreadable_record_refused :
    valid_build_target "Main".toList = true ∧
      parse_record (record_bytes unreadable_record) ≠ .ok unreadable_record := by
  refine ⟨by decide, fun h => ?_⟩
  have hclean := (parse_record_bytes_iff_control (List.cons_ne_nil _ _)).mp h
  exact hclean.2 '' (by decide) (by decide)

end LeanBun.Managed
