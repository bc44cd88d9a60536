/-
What every run of the generation manager keeps.

The manager runs its operations one after another; each may be cut off between
any two of its steps. The invariant ties the records together: every transaction
record is the one of its own transaction, the active record names a transaction
that got as far as being verified, and a transaction that has not ended yet owns
the lock.
-/
import LeanBun.Generation.RollingBack

set_option autoImplicit false

namespace LeanBun.Generation

open LeanBun.Lib LeanBun.Core LeanBun.Store

/-! ## Paths without control characters

Whether the active record of a generation can be read back is decided by the
place of the manager's state alone. -/

/-- The path has no control character. -/
def plain_path (path : PathBuf) : Bool := !path.any is_control

theorem plain_path_append (a b : PathBuf) : plain_path (a ++ b) = (plain_path a && plain_path b) := by
  unfold plain_path
  rw [List.any_append, Bool.not_or]

theorem plain_path_clean {path : PathBuf} (h : path ≠ []) : clean_value path = plain_path path := by
  unfold clean_value plain_path
  rw [show path.isEmpty = false from by simp [h]]
  rfl

theorem plain_path_intercalate (parts : List Str) :
    plain_path (List.intercalate ['/'] parts) = parts.all plain_path := by
  induction parts with
  | nil => rfl
  | cons part parts ih =>
    cases parts with
    | nil => simp [List.intercalate]
    | cons next rest =>
      have hcut : List.intercalate ['/'] (part :: next :: rest) =
          part ++ (['/'] ++ List.intercalate ['/'] (next :: rest)) := by
        simp [List.intercalate]
      have hslash : plain_path ['/'] = true := by decide
      rw [hcut, plain_path_append, plain_path_append, ih, hslash, Bool.true_and, List.all_cons,
        List.all_cons, List.all_cons]

/-- Only the components matter. -/
theorem plain_path_components (path : PathBuf) :
    plain_path path = (path_components path).all plain_path := by
  have hwhole : path = List.intercalate ['/'] (split '/' path) := (List.intercalate_splitOn '/').symm
  conv_lhs => rw [hwhole]
  rw [plain_path_intercalate]
  unfold path_components
  induction split '/' path with
  | nil => rfl
  | cons part parts ih =>
    rw [List.all_cons, List.filter_cons, ih]
    by_cases hkeep : (decide (part ≠ []) && decide (part ≠ ['.'])) = true
    · rw [if_pos hkeep, List.all_cons]
    · rw [if_neg hkeep]
      have hplain : plain_path part = true := by
        simp only [Bool.and_eq_true, decide_eq_true_eq, not_and_or, not_not] at hkeep
        rcases hkeep with rfl | rfl <;> decide
      rw [hplain, Bool.true_and]

theorem plain_path_eq {a b : PathBuf} (h : path_eq a b = true) : plain_path a = plain_path b := by
  rw [plain_path_components a, plain_path_components b, of_decide_eq_true h]

theorem plain_path_join {path child : PathBuf} (hhead : child.head? ≠ some '/')
    (hchild : plain_path child = true) : plain_path (path_join path child) = plain_path path := by
  have hslash : plain_path ('/' :: child) = true := by
    rw [← hchild]
    exact plain_path_append ['/'] child
  unfold path_join
  rw [if_neg hhead]
  by_cases hlast : path.getLast? = some '/'
  · rw [if_pos hlast, plain_path_append, hchild, Bool.and_true]
  · rw [if_neg hlast, plain_path_append, hslash, Bool.and_true]

theorem plain_of_clean {value : Str} (h : clean_value value = true) : plain_path value = true := by
  unfold clean_value at h
  exact (Bool.and_eq_true_iff.mp h).2

theorem head_ne_slash {value : Str} (h : '/' ∉ value) : value.head? ≠ some '/' := fun hhead =>
  h (List.mem_of_mem_head? hhead)

/-- The place of a generation is plain exactly when the manager's state is. -/
theorem plain_generation_root (manager : LeanGenerationManagerV1) (t : ExecutionId) :
    plain_path (manager.generation_root t) = plain_path manager.state_root := by
  have hid : '/' ∉ t.as_str := by
    intro hmem
    rcases t.chars '/' hmem with h | h
    · cases h
    · exact absurd h (by decide)
  have hproject : '/' ∉ manager.project_id.to_string := by
    intro hmem
    exact absurd (List.all_eq_true.mp (hex_all_lower manager.project_id.digest.bytes) '/' hmem)
      (by decide)
  unfold LeanGenerationManagerV1.generation_root LeanGenerationManagerV1.project_state
  rw [plain_path_join (head_ne_slash hid) (plain_of_clean (execution_id_clean t)),
    plain_path_join (by decide) (by decide),
    plain_path_join (head_ne_slash hproject) (plain_of_clean (project_id_clean _)),
    plain_path_join (by decide) (by decide)]

variable {manager : LeanGenerationManagerV1} {s : ProjectState} {g : LeanBunGenerationV1}

theorem valid_location_iff : valid_location manager g = true ↔ g.project_id = manager.project_id ∧
    path_eq g.project_root manager.project_root = true ∧
    path_eq g.generation_root (manager.generation_root g.transaction_id) = true := by
  unfold valid_location
  simp only [Bool.and_eq_true, decide_eq_true_eq, and_assoc]

/-- **Readability.** The active record of a generation at its place is read back
exactly when the path of the manager's state is plain. -/
theorem clean_generation_root (h : valid_location manager g = true) :
    clean_value g.generation_root = plain_path manager.state_root := by
  have hne : g.generation_root ≠ [] := by
    intro hnil
    have hroot := g.generation_root_valid
    rw [hnil] at hroot
    exact absurd hroot (by decide)
  rw [plain_path_clean hne, plain_path_eq (valid_location_iff.mp h).2.2, plain_generation_root]

/-! ## Runs -/

/-- An operation of the manager with its arguments. -/
inductive ManagerOperation where
  | publish (objects : ObjectTrees) (generation : LeanBunGenerationV1) (fault : LeanGenerationFaultV1)
  | recover (generation : LeanBunGenerationV1)
  | rollback (current retained : LeanBunGenerationV1)

/-- The program of an operation, without its result. -/
def ManagerOperation.program (manager : LeanGenerationManagerV1) : ManagerOperation → ManagerProg Unit
  | .publish objects generation fault => do
    let _ ← Generation.publish manager objects generation fault
    return
  | .recover generation => do
    let _ ← Generation.recover manager generation
    return
  | .rollback current retained => rollback_active_generation manager current retained

/-- The states that some run reaches: each operation may be cut off anywhere. -/
inductive Reachable (manager : LeanGenerationManagerV1) : ProjectState → Prop
  | initial : Reachable manager ProjectState.initial
  | step {s : ProjectState} (hs : Reachable manager s) (operation : ManagerOperation) (n : ℕ) :
      Reachable manager ((operation.program manager).crash n s)

/-! ## The invariant -/

/-- How the records of a project belong together. -/
structure Consistent (manager : LeanGenerationManagerV1) (s : ProjectState) : Prop where
  /-- Every temporary record can be read. -/
  temps : ∀ text ∈ s.active_temps, byte_len text ≤ MAX_RECORD_BYTES
  /-- Every transaction record is its own transaction's. -/
  transactions : ∀ t text, s.transactions t = some text → ∃ record, text = transaction_bytes record ∧
    record.transaction = t ∧ (record.state = .Published → plain_path manager.state_root = true)
  /-- The active record names a transaction that was verified; without a lock it can
  be read. -/
  active : ∀ text, s.active = some text → ∃ record, text = active_bytes record ∧
    byte_len text ≤ MAX_RECORD_BYTES ∧ (s.lock = none → clean_value record.path = true) ∧
    ∃ transaction, s.transactions record.transaction = some (transaction_bytes transaction) ∧
      transaction.generation = record.generation ∧
      (transaction.state = .Verified ∨ transaction.state = .Published)
  /-- A transaction that has not ended owns the lock. -/
  owned : ∀ t record, s.transactions t = some (transaction_bytes record) →
    record.state = .Published ∨ record.state = .Failed ∨
      ∃ owner, s.lock = some (lock_bytes owner) ∧ owner.transaction_id = t

theorem Consistent.initial : Consistent manager ProjectState.initial where
  temps := fun _ h => absurd h List.not_mem_nil
  transactions := fun _ _ h => by cases h
  active := fun _ h => by cases h
  owned := fun _ _ h => by cases h

theorem Consistent.canonical (hs : Consistent manager s) (t : ExecutionId) :
    ∀ text, s.transactions t = some text → ∃ record, text = transaction_bytes record := by
  intro text htext
  obtain ⟨record, hrecord, -⟩ := hs.transactions t text htext
  exact ⟨record, hrecord⟩

/-- The record of a transaction names it. -/
theorem Consistent.record (hs : Consistent manager s) {t : ExecutionId} {record : TransactionRecord}
    (h : s.transactions t = some (transaction_bytes record)) : record.transaction = t ∧
      (record.state = .Published → plain_path manager.state_root = true) := by
  obtain ⟨other, hsame, hother⟩ := hs.transactions t _ h
  rw [transaction_bytes_injective hsame]
  exact hother

/-- Without a lock every transaction has ended. -/
theorem Consistent.ended (hs : Consistent manager s) (hfree : s.lock = none) {t : ExecutionId}
    {record : TransactionRecord} (h : s.transactions t = some (transaction_bytes record)) :
    record.state = .Published ∨ record.state = .Failed := by
  rcases hs.owned t record h with h | h | ⟨owner, hlock, -⟩
  · exact Or.inl h
  · exact Or.inr h
  · rw [hfree] at hlock
    cases hlock

/-- What is read from the active record is the record itself. -/
theorem Consistent.read_active (hs : Consistent manager s) {active : Option ActiveRecord}
    (h : read_active s = .ok active) :
    s.active = none ∧ active = none ∨ ∃ record, s.active = some (active_bytes record) ∧
      active = some record ∧ clean_value record.path = true := by
  cases htext : s.active with
  | none =>
    rw [read_active_none.mpr htext] at h
    exact Or.inl ⟨rfl, (Except.ok.inj h).symm⟩
  | some text =>
    obtain ⟨record, rfl, -⟩ := hs.active text htext
    cases active with
    | none =>
      rw [read_active_none.mp h] at htext
      cases htext
    | some observed =>
      obtain ⟨rfl, hclean, -⟩ := (read_active_bytes htext).mp h
      exact Or.inr ⟨observed, rfl, rfl, hclean⟩

/-- Without a lock the active record is read. -/
theorem Consistent.readable (hs : Consistent manager s) (hfree : s.lock = none) :
    ∃ active, LeanBun.Generation.read_active s = .ok active := by
  cases htext : s.active with
  | none => exact ⟨none, read_active_none.mpr htext⟩
  | some text =>
    obtain ⟨record, rfl, hsmall, hclean, -⟩ := hs.active text htext
    exact ⟨some record, (read_active_bytes htext).mpr ⟨rfl, hclean hfree, hsmall⟩⟩

/-! ## Every operation keeps it -/

/-- A transaction record is written. -/
theorem update_transaction {t t' : ExecutionId} {text : Str} :
    Function.update s.transactions t (some text) t' = if t' = t then some text else s.transactions t' := by
  by_cases h : t' = t
  · rw [h, if_pos rfl, Function.update_self]
  · rw [if_neg h, Function.update_of_ne h]

theorem consistent_staged (hs : Consistent manager s) (hfree : s.lock = none)
    (hfresh : s.transactions g.transaction_id = none) {state : LeanGenerationStateV1}
    (hstate : unpublished state) {directory : Option GenerationDirectory} {temps : List Str}
    (htemps : ∀ text ∈ temps, text ∈ s.active_temps ∨ text = active_text g) :
    Consistent manager (staged s g state directory temps) where
  temps := by
    intro text htext
    rcases htemps text htext with h | rfl
    · exact hs.temps text h
    · exact active_text_small g
  transactions := by
    intro t text htext
    have htext : Function.update s.transactions g.transaction_id
        (some (transaction_bytes (transaction_record g state))) t = some text := htext
    rw [update_transaction] at htext
    by_cases ht : t = g.transaction_id
    · rw [if_pos ht] at htext
      refine ⟨transaction_record g state, (Option.some.inj htext).symm, ht.symm, fun hpublished => ?_⟩
      rcases hstate with h | h | h <;> rw [h] at hpublished <;> cases hpublished
    · rw [if_neg ht] at htext
      exact hs.transactions t text htext
  active := by
    intro text htext
    obtain ⟨record, htext, hsmall, -, transaction, htransaction, hrest⟩ := hs.active text htext
    refine ⟨record, htext, hsmall, fun h => (by cases h), transaction, ?_, hrest⟩
    have hne : record.transaction ≠ g.transaction_id := by
      intro heq
      rw [heq, hfresh] at htransaction
      cases htransaction
    exact (Function.update_of_ne hne ..).trans htransaction
  owned := by
    intro t record htext
    have htext : Function.update s.transactions g.transaction_id
        (some (transaction_bytes (transaction_record g state))) t =
        some (transaction_bytes record) := htext
    rw [update_transaction] at htext
    by_cases ht : t = g.transaction_id
    · exact Or.inr (Or.inr ⟨g, rfl, ht.symm⟩)
    · rw [if_neg ht] at htext
      rcases hs.ended hfree htext with h | h
      · exact Or.inl h
      · exact Or.inr (Or.inl h)

theorem consistent_renamed (hs : Consistent manager s) (hlocation : valid_location manager g = true)
    (hfree : s.lock = none) {state : LeanGenerationStateV1} {directory : Option GenerationDirectory}
    {retained lock : Option Str}
    (hstate : state = .Verified ∨ state = .Published ∧ clean_value g.generation_root = true)
    (hlock : lock = some (lock_bytes g) ∨ state = .Published ∧ lock = none) :
    Consistent manager (renamed s g state directory retained lock) where
  temps := by
    intro text htext
    rcases List.mem_append.mp (List.mem_of_mem_erase htext) with h | h
    · exact hs.temps text h
    · rw [List.mem_singleton.mp h]
      exact active_text_small g
  transactions := by
    intro t text htext
    have htext : Function.update s.transactions g.transaction_id
        (some (transaction_bytes (transaction_record g state))) t = some text := htext
    rw [update_transaction] at htext
    by_cases ht : t = g.transaction_id
    · rw [if_pos ht] at htext
      refine ⟨transaction_record g state, (Option.some.inj htext).symm, ht.symm, fun hpublished => ?_⟩
      rcases hstate with h | ⟨-, h⟩
      · rw [show state = .Published from hpublished] at h
        cases h
      · rw [← clean_generation_root hlocation, h]
    · rw [if_neg ht] at htext
      exact hs.transactions t text htext
  active := by
    intro text htext
    refine ⟨active_record g, (Option.some.inj htext).symm, ?_, ?_, transaction_record g state,
      Function.update_self .., rfl, hstate.imp (fun h => h) fun h => h.1⟩
    · rw [← Option.some.inj htext]
      exact active_text_small g
    · intro hnone
      have hnone : lock = none := hnone
      rcases hlock with h | ⟨hpublished, -⟩
      · rw [h] at hnone
        cases hnone
      · rcases hstate with h | ⟨-, h⟩
        · rw [hpublished] at h
          cases h
        · exact h
  owned := by
    intro t record htext
    have htext : Function.update s.transactions g.transaction_id
        (some (transaction_bytes (transaction_record g state))) t =
        some (transaction_bytes record) := htext
    rw [update_transaction] at htext
    by_cases ht : t = g.transaction_id
    · rw [if_pos ht] at htext
      rcases hlock with h | ⟨hpublished, -⟩
      · exact Or.inr (Or.inr ⟨g, h, ht.symm⟩)
      · refine Or.inl ?_
        rw [← transaction_bytes_injective (Option.some.inj htext)]
        exact hpublished
    · rw [if_neg ht] at htext
      rcases hs.ended hfree htext with h | h
      · exact Or.inl h
      · exact Or.inr (Or.inl h)

theorem consistent_publish (hs : Consistent manager s) {s' : ProjectState}
    (h : PublishPhase manager s g s') : Consistent manager s' := by
  cases h with
  | idle => exact hs
  | locked _ hfree =>
    refine ⟨hs.temps, hs.transactions, ?_, ?_⟩
    · intro text htext
      obtain ⟨record, hrecord, hsmall, -, hrest⟩ := hs.active text htext
      exact ⟨record, hrecord, hsmall, fun h => (by cases h), hrest⟩
    · intro t record htext
      rcases hs.ended hfree htext with h | h
      · exact Or.inl h
      · exact Or.inr (Or.inl h)
  | staged _ hfree hfresh state directory temps hstate htemps =>
    exact consistent_staged hs hfree hfresh hstate htemps
  | activated hlocation hfree _ state directory hstate _ =>
    exact consistent_renamed hs hlocation hfree hstate (Or.inl rfl)
  | retained hlocation hfree _ directory text hclean _ _ =>
    exact consistent_renamed hs hlocation hfree (Or.inr ⟨rfl, hclean⟩) (Or.inl rfl)
  | released hlocation hfree _ directory text hclean _ _ _ =>
    exact consistent_renamed hs hlocation hfree (Or.inr ⟨rfl, hclean⟩) (Or.inr ⟨rfl, rfl⟩)

/-- The evidence for completing a publication is about the transaction's own record. -/
theorem RecoversActive.own {record : TransactionRecord} (h : RecoversActive manager s g record)
    (hs : Consistent manager s) : record.transaction = g.transaction_id ∧
      plain_path manager.state_root = true := by
  refine ⟨(hs.record h.transaction).1, ?_⟩
  obtain ⟨observed, hobserved, hnames⟩ := h.active
  rcases hs.read_active hobserved with ⟨-, hnone⟩ | ⟨actual, -, hsame, hclean⟩
  · cases hnone
  · rw [← Option.some.inj hsame] at hclean
    rw [← clean_generation_root h.location, plain_path_clean (fun hnil => ?_),
      ← plain_path_eq (names_generation_transaction hnames).2.2]
    · exact plain_of_clean hclean
    · have hroot := g.generation_root_valid
      rw [hnil] at hroot
      exact absurd hroot (by decide)

theorem RecoversInactive.own {record : TransactionRecord} (h : RecoversInactive manager s g record)
    (hs : Consistent manager s) : record.transaction = g.transaction_id := by
  rcases h.transaction with ⟨-, rfl⟩ | hsome
  · rfl
  · exact (hs.record hsome).1

/-- The owner of a lock that a recovery can release is the recovered transaction. -/
theorem owned_after (hs : Consistent manager s)
    (hlock : s.lock = none ∨ s.lock = some (lock_bytes g)) {t : ExecutionId}
    (ht : t ≠ g.transaction_id) {record : TransactionRecord}
    (h : s.transactions t = some (transaction_bytes record)) :
    record.state = .Published ∨ record.state = .Failed := by
  rcases hs.owned t record h with h | h | ⟨owner, howner, hid⟩
  · exact Or.inl h
  · exact Or.inr h
  · rcases hlock with hnone | hown
    · rw [hnone] at howner
      cases howner
    · rw [hown] at howner
      exact absurd (((lock_bytes_injective (Option.some.inj howner)).1.trans hid).symm) ht

/-- A recovery ends its transaction and touches no other record. -/
theorem consistent_settle (hs : Consistent manager s) {record : TransactionRecord}
    (hrecord : record.transaction = g.transaction_id) {state : LeanGenerationStateV1}
    (hstate : state = .Published ∧ plain_path manager.state_root = true ∨ state = .Failed)
    (hactive : ∀ observed, s.active = some (active_bytes observed) →
      observed.transaction = g.transaction_id → state = .Published ∧
        s.transactions g.transaction_id = some (transaction_bytes record))
    {temps : List Str} (htemps : ∀ text ∈ temps, text ∈ s.active_temps) {retained lock : Option Str}
    (hlock : lock = s.lock ∨ lock = none ∧ (s.lock = none ∨ s.lock = some (lock_bytes g)) ∧
      ∃ active, read_active s = .ok active) :
    Consistent manager { settle s g record state with
      active_temps := temps, retained := retained, lock := lock } where
  temps := fun text h => hs.temps text (htemps text h)
  transactions := by
    intro t text htext
    have htext : Function.update s.transactions g.transaction_id
        (some (transaction_bytes { record with state := state })) t = some text := htext
    rw [update_transaction] at htext
    by_cases ht : t = g.transaction_id
    · rw [if_pos ht] at htext
      refine ⟨_, (Option.some.inj htext).symm, hrecord.trans ht.symm, fun hpublished => ?_⟩
      rcases hstate with ⟨-, hplain⟩ | hfailed
      · exact hplain
      · rw [show state = .Published from hpublished] at hfailed
        cases hfailed
    · rw [if_neg ht] at htext
      exact hs.transactions t text htext
  active := by
    intro text htext
    obtain ⟨observed, rfl, hsmall, hclean, transaction, htransaction, hrest⟩ := hs.active text htext
    refine ⟨observed, rfl, hsmall, ?_, ?_⟩
    · intro hnone
      rcases hlock with hsame | ⟨-, -, active, hread⟩
      · exact hclean (hsame.symm.trans hnone)
      · rcases hs.read_active hread with ⟨hno, -⟩ | ⟨actual, hactual, -, hpath⟩
        · rw [show s.active = some (active_bytes observed) from htext] at hno
          cases hno
        · rw [show s.active = some (active_bytes observed) from htext] at hactual
          rw [← active_bytes_injective hpath (Option.some.inj hactual).symm]
          exact hpath
    · by_cases ht : observed.transaction = g.transaction_id
      · obtain ⟨hpublished, hsome⟩ := hactive observed htext ht
        refine ⟨{ record with state := state }, ?_, ?_, Or.inr hpublished⟩
        · show Function.update _ _ _ _ = _
          rw [update_transaction, if_pos ht]
        · rw [ht, hsome] at htransaction
          rw [← hrest.1, ← transaction_bytes_injective (Option.some.inj htransaction)]
      · refine ⟨transaction, ?_, hrest⟩
        show Function.update _ _ _ _ = _
        rw [update_transaction, if_neg ht]
        exact htransaction
  owned := by
    intro t other htext
    have htext : Function.update s.transactions g.transaction_id
        (some (transaction_bytes { record with state := state })) t =
        some (transaction_bytes other) := htext
    rw [update_transaction] at htext
    by_cases ht : t = g.transaction_id
    · rw [if_pos ht] at htext
      rw [← transaction_bytes_injective (Option.some.inj htext)]
      rcases hstate with ⟨hpublished, -⟩ | hfailed
      · exact Or.inl hpublished
      · exact Or.inr (Or.inl hfailed)
    · rw [if_neg ht] at htext
      rcases hlock with hsame | ⟨-, hown, -⟩
      · have howned := hs.owned t other htext
        rw [← hsame] at howned
        exact howned
      · rcases owned_after hs hown ht htext with h | h
        · exact Or.inl h
        · exact Or.inr (Or.inl h)

theorem consistent_recover (hs : Consistent manager s) {s' : ProjectState}
    (h : RecoverPhase manager s g s') : Consistent manager s' := by
  have hpublish : ∀ record, RecoversActive manager s g record → ∀ observed,
      s.active = some (active_bytes observed) → observed.transaction = g.transaction_id →
      LeanGenerationStateV1.Published = .Published ∧
        s.transactions g.transaction_id = some (transaction_bytes record) :=
    fun record hactive _ _ _ => ⟨rfl, hactive.transaction⟩
  have hfail : ∀ record, RecoversInactive manager s g record → ∀ observed,
      s.active = some (active_bytes observed) → observed.transaction ≠ g.transaction_id := by
    intro record hinactive observed hobserved
    obtain ⟨active, hread, hne⟩ := hinactive.active
    rcases hs.read_active hread with ⟨hnone, -⟩ | ⟨actual, hactual, hsame, hpath⟩
    · rw [hnone] at hobserved
      cases hobserved
    · rw [hactual] at hobserved
      rw [← active_bytes_injective hpath (Option.some.inj hobserved)]
      exact hne actual hsame
  cases h with
  | idle => exact hs
  | published record hactive =>
    obtain ⟨hown, hplain⟩ := hactive.own hs
    exact consistent_settle hs hown (Or.inl ⟨rfl, hplain⟩) (hpublish record hactive)
      (fun _ h => h) (Or.inl rfl)
  | retained record hactive text _ =>
    obtain ⟨hown, hplain⟩ := hactive.own hs
    exact consistent_settle hs hown (Or.inl ⟨rfl, hplain⟩) (hpublish record hactive)
      (fun _ h => h) (Or.inl rfl)
  | completed record hactive text _ _ hlock =>
    obtain ⟨hown, hplain⟩ := hactive.own hs
    obtain ⟨observed, hread, -⟩ := hactive.active
    exact consistent_settle hs hown (Or.inl ⟨rfl, hplain⟩) (hpublish record hactive)
      (fun _ h => h) (Or.inr ⟨rfl, hlock, _, hread⟩)
  | failed record hinactive temps htemps =>
    exact consistent_settle hs (hinactive.own hs) (Or.inr rfl)
      (fun observed hobserved hid => absurd hid (hfail record hinactive observed hobserved)) htemps
      (Or.inl rfl)
  | abandoned record hinactive hlock =>
    obtain ⟨active, hread, -⟩ := hinactive.active
    exact consistent_settle hs (hinactive.own hs) (Or.inr rfl)
      (fun observed hobserved hid => absurd hid (hfail record hinactive observed hobserved))
      (fun _ h => mem_other_temps h) (Or.inr ⟨rfl, hlock, _, hread⟩)

/-- What a rollback relies on: a published generation can be read back. -/
theorem clean_of_published (hs : Consistent manager s) (hlocation : valid_location manager g = true)
    (h : Published s g) : clean_value g.generation_root = true := by
  obtain ⟨⟨record, hread, -, -, hstate⟩, -⟩ := h
  rw [clean_generation_root hlocation]
  cases htext : s.transactions g.transaction_id with
  | none =>
    rw [read_transaction_none htext] at hread
    cases hread
  | some text =>
    obtain ⟨other, rfl, -, hplain⟩ := hs.transactions _ text htext
    rw [read_transaction_bytes htext] at hread
    rw [Option.some.inj (Except.ok.inj hread)] at hplain
    exact hplain hstate

theorem consistent_rollback {current retained : LeanBunGenerationV1} (hs : Consistent manager s)
    {s' : ProjectState} (h : RollbackPhase manager s current retained s') :
    Consistent manager s' := by
  -- the phases differ from the start in the lock, the temporary records and the active record
  have hended : ∀ lock : Option Str, s.lock = none → ∀ t record,
      s.transactions t = some (transaction_bytes record) → record.state = .Published ∨
        record.state = .Failed ∨ ∃ owner, lock = some (lock_bytes owner) ∧ owner.transaction_id = t :=
    fun _ hfree t record htext => (hs.ended hfree htext).imp_right Or.inl
  cases h with
  | idle => exact hs
  | locked hfree _ _ _ temps htemps =>
    refine ⟨?_, hs.transactions, ?_, hended _ hfree⟩
    · intro text htext
      rcases htemps text htext with h | rfl
      · exact hs.temps text h
      · exact active_text_small retained
    · intro text htext
      obtain ⟨record, hrecord, hsmall, -, hrest⟩ := hs.active text htext
      exact ⟨record, hrecord, hsmall, fun h => (by cases h), hrest⟩
  | renamed hfree _ hretained hlocation _ lock _ =>
    have hclean := clean_of_published hs hlocation hretained
    refine ⟨?_, hs.transactions, ?_, hended _ hfree⟩
    · intro text htext
      rcases List.mem_append.mp (List.mem_of_mem_erase htext) with h | h
      · exact hs.temps text h
      · rw [List.mem_singleton.mp h]
        exact active_text_small retained
    · intro text htext
      obtain ⟨⟨record, hread, -, hgeneration, hstate⟩, -⟩ := hretained
      cases hsome : s.transactions retained.transaction_id with
      | none =>
        rw [read_transaction_none hsome] at hread
        cases hread
      | some bytes =>
        obtain ⟨other, rfl, -⟩ := hs.transactions _ bytes hsome
        rw [read_transaction_bytes hsome] at hread
        have hsame := Option.some.inj (Except.ok.inj hread)
        refine ⟨active_record retained, (Option.some.inj htext).symm, ?_, fun _ => hclean, other,
          hsome, ?_, Or.inr ?_⟩
        · rw [← Option.some.inj htext]
          exact active_text_small retained
        · rw [hsame]
          exact hgeneration
        · rw [hsame]
          exact hstate

/-! ## Every crash point of an operation -/

theorem publish_crash (manager : LeanGenerationManagerV1) (s : ProjectState) (objects : ObjectTrees)
    (g : LeanBunGenerationV1) (fault : LeanGenerationFaultV1) (n : ℕ) :
    PublishPhase manager s g ((publish manager objects g fault).crash n s) :=
  (publish_phases objects fault).crash n

theorem recover_crash (hs : Consistent manager s) (g : LeanBunGenerationV1) (n : ℕ) :
    RecoverPhase manager s g ((recover manager g).crash n s) :=
  (recover_phases hs.temps).crash n

theorem rollback_crash (hs : Consistent manager s) (current retained : LeanBunGenerationV1) (n : ℕ) :
    RollbackPhase manager s current retained
      ((rollback_active_generation manager current retained).crash n s) :=
  (rollback_phases fun hlocation hpublished => clean_of_published hs hlocation hpublished).crash n

/-- **Step.** Wherever an operation is cut off, the records still belong together. -/
theorem consistent_step (hs : Consistent manager s) (operation : ManagerOperation) (n : ℕ) :
    Consistent manager ((operation.program manager).crash n s) := by
  cases operation with
  | publish objects g fault =>
    unfold ManagerOperation.program
    rw [Prog.crash_bind_pure]
    exact consistent_publish hs (publish_crash manager s objects g fault n)
  | recover g =>
    unfold ManagerOperation.program
    rw [Prog.crash_bind_pure]
    exact consistent_recover hs (recover_crash hs g n)
  | rollback current retained => exact consistent_rollback hs (rollback_crash hs current retained n)

/-- **Run.** Every reachable state is consistent. -/
theorem Reachable.consistent (h : Reachable manager s) : Consistent manager s := by
  induction h with
  | initial => exact Consistent.initial
  | step _ operation n ih => exact consistent_step ih operation n

end LeanBun.Generation
