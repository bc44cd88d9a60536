/-
One rule for each primitive of the generation manager.

A rule says what the program after the primitive may assume, for every way the
primitive can end, and which states a crash inside it leaves. The rules for the
operations cite these and unfold no primitive again.
-/
import LeanBun.Generation.Manager

set_option autoImplicit false

namespace LeanBun.Generation

open LeanBun.Lib LeanBun.Core LeanBun.Store

variable {α : Type} {I : ProjectState → Prop} {Q : α → ProjectState → Prop}
  {E : LeanGenerationError → ProjectState → Prop} {s : ProjectState} {g : LeanBunGenerationV1}

/-! ## Checks -/

theorem Holds.check_bind {x : GenerationResult Unit} {f : Unit → ManagerProg α} (hs : I s)
    (herror : ∀ e, x = .error e → E e s) (hok : x = .ok () → Prog.Holds I Q E (f ()) s) :
    Prog.Holds I Q E (check x >>= f) s :=
  Prog.Holds.lift_bind hs herror fun _ hb => hok hb

/-- A fault stops the program or does nothing. -/
theorem Holds.inject_bind {actual expected : LeanGenerationFaultV1} {stage : String}
    {f : Unit → ManagerProg α} (hs : I s) (herror : actual = expected → ∀ e, E e s)
    (hok : Prog.Holds I Q E (f ()) s) : Prog.Holds I Q E (inject actual expected stage >>= f) s := by
  apply Holds.check_bind hs
  · intro e he
    by_cases hfault : actual = expected
    · exact herror hfault e
    · rw [if_neg hfault] at he
      cases he
  · intro _
    exact hok

/-! ## Reading records -/

theorem stable_read_eq_ok {text value : Str} :
    stable_read text = .ok value ↔ value = text ∧ byte_len text ≤ MAX_RECORD_BYTES := by
  unfold stable_read
  by_cases hsmall : byte_len text ≤ MAX_RECORD_BYTES
  · rw [if_pos hsmall]
    exact ⟨fun h => ⟨(Except.ok.inj h).symm, hsmall⟩, fun h => by rw [h.1]⟩
  · rw [if_neg hsmall]
    exact ⟨fun h => (by cases h), fun h => absurd h.2 hsmall⟩

theorem stable_read_small {text : Str} (h : byte_len text ≤ MAX_RECORD_BYTES) :
    stable_read text = .ok text := stable_read_eq_ok.mpr ⟨rfl, h⟩

theorem read_optional_some {β : Type} {parse : Str → GenerationResult β} {text : Str} {record : β} :
    read_optional parse (some text) = .ok (some record) ↔
      byte_len text ≤ MAX_RECORD_BYTES ∧ parse text = .ok record := by
  show (stable_read text >>= fun text => parse text >>= fun record => pure (some record)) = _ ↔ _
  rw [bind_eq_ok]
  constructor
  · rintro ⟨value, hvalue, h⟩
    obtain ⟨rfl, hsmall⟩ := stable_read_eq_ok.mp hvalue
    obtain ⟨parsed, hparsed, h⟩ := bind_eq_ok.mp h
    rw [← Option.some.inj (Except.ok.inj h)]
    exact ⟨hsmall, hparsed⟩
  · rintro ⟨hsmall, hparse⟩
    refine ⟨text, stable_read_small hsmall, ?_⟩
    rw [hparse]
    rfl

/-- A file that is there is read as a record or not at all. -/
theorem read_optional_none {β : Type} {parse : Str → GenerationResult β} {file : Option Str} :
    read_optional parse file = .ok none ↔ file = none := by
  cases file with
  | none => exact ⟨fun _ => rfl, fun _ => rfl⟩
  | some text =>
    refine ⟨fun h => ?_, fun h => by cases h⟩
    obtain ⟨value, -, h⟩ := bind_eq_ok.mp h
    obtain ⟨record, -, h⟩ := bind_eq_ok.mp h
    cases Except.ok.inj h

theorem read_transaction_bytes {record : TransactionRecord} {t : ExecutionId}
    (h : s.transactions t = some (transaction_bytes record)) :
    read_transaction s t = .ok (some record) := by
  unfold read_transaction
  rw [h]
  exact read_optional_some.mpr ⟨transaction_bytes_small record, parse_transaction_bytes record⟩

theorem read_transaction_none {t : ExecutionId} (h : s.transactions t = none) :
    read_transaction s t = .ok none := read_optional_none.mpr h

/-- What is read of a transaction is what its file says. -/
theorem read_transaction_eq_ok {t : ExecutionId} {transaction : Option TransactionRecord} :
    read_transaction s t = .ok transaction ↔
      s.transactions t = transaction.map transaction_bytes := by
  constructor
  · intro h
    cases transaction with
    | none => exact read_optional_none.mp h
    | some record =>
      unfold read_transaction at h
      cases htext : s.transactions t with
      | none =>
        rw [htext] at h
        cases h
      | some text =>
        rw [htext] at h
        rw [← parse_transaction_canonical (read_optional_some.mp h).2]
        rfl
  · intro h
    cases transaction with
    | none => exact read_transaction_none h
    | some record => exact read_transaction_bytes h

/-- An active record is read exactly when it is clean and small. -/
theorem read_active_bytes {record observed : ActiveRecord}
    (h : s.active = some (active_bytes record)) :
    read_active s = .ok (some observed) ↔ observed = record ∧ clean_value record.path = true ∧
      byte_len (active_bytes record) ≤ MAX_RECORD_BYTES := by
  unfold read_active
  rw [h, read_optional_some, parse_active_bytes_iff]
  tauto

theorem read_active_none : read_active s = .ok none ↔ s.active = none := read_optional_none

theorem require_exact_same {text : Str} {kind : LeanGenerationErrorKind} :
    require_exact (some text) text kind = .ok () ↔ byte_len text ≤ MAX_RECORD_BYTES := by
  show (stable_read text >>= fun actual => if actual = text then _ else _) = _ ↔ _
  rw [bind_eq_ok]
  constructor
  · rintro ⟨value, hvalue, -⟩
    exact (stable_read_eq_ok.mp hvalue).2
  · intro hsmall
    exact ⟨text, stable_read_small hsmall, if_pos rfl⟩

theorem require_exact_eq_ok {text : Option Str} {expected : Str} {kind : LeanGenerationErrorKind} :
    require_exact text expected kind = .ok () ↔
      text = some expected ∧ byte_len expected ≤ MAX_RECORD_BYTES := by
  cases text with
  | none => exact ⟨fun h => (by cases h), fun h => (by cases h.1)⟩
  | some text =>
    by_cases hsame : text = expected
    · rw [hsame, require_exact_same]
      exact ⟨fun h => ⟨rfl, h⟩, fun h => h.2⟩
    · refine ⟨fun h => ?_, fun h => absurd (Option.some.inj h.1) hsame⟩
      obtain ⟨value, hvalue, h⟩ := bind_eq_ok.mp h
      rw [(stable_read_eq_ok.mp hvalue).1, if_neg hsame] at h
      cases h

/-! ## The project lock -/

theorem Holds.acquire_lock_bind {f : Unit → ManagerProg α} (hs : I s)
    (hbusy : s.lock ≠ none → ∀ e, E e s)
    (hfree : s.lock = none → Prog.Holds I Q E (f ()) { s with lock := some (lock_bytes g) }) :
    Prog.Holds I Q E (acquire_lock g >>= f) s := by
  apply Prog.holds_bind.mpr
  cases hlock : s.lock with
  | none =>
    refine Prog.Holds.atomic_ok ?_ hs (hfree hlock).start (hfree hlock)
    rw [hlock]
  | some text =>
    have hheld : s.lock ≠ none := by rw [hlock]; simp
    refine Prog.Holds.atomic_error ?_ hs hs (hbusy hheld ⟨.LockBusy, "exclusive state file exists"⟩)
    rw [hlock]

/-- **Releasing a lock.** Nothing to release, the own lock, or someone else's. -/
theorem Holds.release_lock_if_owned {Q : Bool → ProjectState → Prop} (hs : I s)
    (habsent : s.lock = none → Q false s)
    (hown : s.lock = some (lock_bytes g) → I { s with lock := none } ∧ Q true { s with lock := none })
    (hother : ∀ text, s.lock = some text → text ≠ lock_bytes g → ∀ e, E e s) :
    Prog.Holds I Q E (release_lock_if_owned g) s := by
  unfold LeanBun.Generation.release_lock_if_owned
  cases hlock : s.lock with
  | none =>
    have howned : lock_owned s g = .ok false := by
      unfold lock_owned
      rw [hlock]
    apply Prog.Holds.read_bind hs
    · intro e he
      rw [howned] at he
      cases he
    · intro b hb
      rw [howned] at hb
      cases hb
      exact Prog.holds_pure.mpr ⟨hs, habsent hlock⟩
  | some text =>
    have howned : lock_owned s g = stable_read text >>= fun observed =>
        if observed = lock_bytes g then .ok true
        else .error ⟨.OwnershipMismatch, "project lock belongs to another transaction"⟩ := by
      unfold lock_owned
      rw [hlock]
    by_cases hsame : text = lock_bytes g
    · have hsmall : byte_len text ≤ MAX_RECORD_BYTES := by
        rw [hsame]
        exact lock_bytes_small g
      rw [stable_read_small hsmall] at howned
      have htrue : lock_owned s g = .ok true := howned.trans (if_pos hsame)
      have hdone := hown (by rw [hlock, hsame])
      apply Prog.Holds.read_bind hs
      · intro e he
        rw [htrue] at he
        cases he
      · intro b hb
        rw [htrue] at hb
        cases hb
        apply Prog.holds_bind.mpr
        refine Prog.Holds.atomic_ok (a := ()) ?_ hs hdone.1 (Prog.holds_pure.mpr hdone)
        rw [hlock]
    · apply Prog.Holds.read_bind hs
      · intro e _
        exact hother text hlock hsame e
      · intro b hb
        rw [howned] at hb
        obtain ⟨value, hvalue, hb⟩ := bind_eq_ok.mp hb
        rw [(stable_read_eq_ok.mp hvalue).1, if_neg hsame] at hb
        cases hb

theorem Holds.release_lock {Q : Unit → ProjectState → Prop} (hs : I s)
    (hlock : s.lock = some (lock_bytes g)) (hfree : I { s with lock := none })
    (hQ : Q () { s with lock := none }) : Prog.Holds I Q E (release_lock g) s := by
  unfold LeanBun.Generation.release_lock
  apply Prog.holds_bind.mpr
  apply Holds.release_lock_if_owned hs
  · intro hnone
    rw [hlock] at hnone
    cases hnone
  · intro _
    refine ⟨hfree, ?_⟩
    exact Prog.holds_lift.mpr ⟨hfree, fun _ _ => hQ, fun e he => by cases he⟩
  · intro text htext hne
    rw [hlock] at htext
    exact absurd (Option.some.inj htext).symm hne

/-! ## Transactions -/

theorem Holds.create_transaction_record {state : LeanGenerationStateV1} {Q : Unit → ProjectState → Prop}
    (hs : I s) (hexists : s.transactions g.transaction_id ≠ none → ∀ e, E e s)
    (hfresh : s.transactions g.transaction_id = none →
      I (s.set_transaction g.transaction_id (transaction_bytes (transaction_record g state))) ∧
        Q () (s.set_transaction g.transaction_id (transaction_bytes (transaction_record g state)))) :
    Prog.Holds I Q E (create_transaction_record g state) s := by
  unfold LeanBun.Generation.create_transaction_record
  cases htransaction : s.transactions g.transaction_id with
  | none =>
    have hdone := hfresh htransaction
    apply Prog.Holds.read_bind hs
    · intro e he
      rw [htransaction, if_neg (by simp)] at he
      cases he
    · intro _ _
      refine Prog.Holds.atomic_ok ?_ hs hdone.1 hdone.2
      rw [htransaction]
  | some text =>
    have hsome : s.transactions g.transaction_id ≠ none := by rw [htransaction]; simp
    apply Prog.Holds.read_bind hs
    · intro e _
      exact hexists hsome e
    · intro b hb
      rw [htransaction, if_pos (by simp)] at hb
      cases hb

/-- **A transition** of a transaction whose record is the generation's own. -/
theorem Holds.transition {next : LeanGenerationStateV1} {Q : Unit → ProjectState → Prop}
    {record : TransactionRecord} (hrecord : s.transactions g.transaction_id =
      some (transaction_bytes record)) (hs : I s)
    (hrefused : checked_transition g next (some record) ≠
      .ok { record with state := next } → ∀ e, E e s)
    (hdone : record.project = g.project_id → record.generation = g.identity →
      valid_transition record.state next = true →
      I (s.set_transaction g.transaction_id (transaction_bytes { record with state := next })) ∧
      Q () (s.set_transaction g.transaction_id (transaction_bytes { record with state := next }))) :
    Prog.Holds I Q E (transition g next) s := by
  have hread := read_transaction_bytes hrecord
  unfold LeanBun.Generation.transition
  apply Prog.Holds.read_bind hs
  · intro e he
    rw [hread] at he
    cases he
  intro current hcurrent
  rw [hread] at hcurrent
  cases hcurrent
  by_cases hidentity : record.project ≠ g.project_id ∨ record.generation ≠ g.identity
  · -- the record belongs to another generation
    have hchecked : checked_transition g next (some record) =
        .error (drift "transaction record identity changed") := if_pos hidentity
    apply Prog.Holds.lift_bind hs
    · intro e _
      exact hrefused (by rw [hchecked]; simp) e
    · intro updated hupdated
      rw [hchecked] at hupdated
      cases hupdated
  by_cases hvalid : valid_transition record.state next = true
  · have hchecked : checked_transition g next (some record) = .ok { record with state := next } := by
      show (if _ then _ else if _ then _ else _) = _
      rw [if_neg hidentity, if_neg (by rw [hvalid]; simp)]
    rw [not_or, not_not, not_not] at hidentity
    obtain ⟨hafter, hQ⟩ := hdone hidentity.1 hidentity.2 hvalid
    apply Prog.Holds.lift_bind hs
    · intro e he
      rw [hchecked] at he
      cases he
    intro updated hupdated
    rw [hchecked] at hupdated
    cases hupdated
    apply Prog.Holds.write_bind hs
    have hexact : require_exact ((s.set_transaction g.transaction_id
        (transaction_bytes { record with state := next })).transactions g.transaction_id)
        (transaction_bytes { record with state := next }) .RecordDrift = .ok () := by
      refine require_exact_eq_ok.mpr ⟨?_, transaction_bytes_small _⟩
      exact Function.update_self ..
    refine Prog.holds_read.mpr ⟨hafter, fun _ _ => hQ, ?_⟩
    intro e he
    rw [hexact] at he
    cases he
  · have hchecked : checked_transition g next (some record) =
        .error ⟨.InvalidTransition, "invalid generation transition"⟩ := by
      show (if _ then _ else if _ then _ else _) = _
      rw [if_neg hidentity, if_pos (Bool.not_eq_true _ ▸ hvalid)]
    apply Prog.Holds.lift_bind hs
    · intro e _
      exact hrefused (by rw [hchecked]; simp) e
    · intro updated hupdated
      rw [hchecked] at hupdated
      cases hupdated

/-! ## Generation directories -/

theorem Holds.verify_generation_bind {f : Unit → ManagerProg α} (hs : I s)
    (hfail : verify_directory g (s.generations g.transaction_id) ≠ .ok () → ∀ e, E e s)
    (hok : verify_directory g (s.generations g.transaction_id) = .ok () →
      Prog.Holds I Q E (f ()) s) : Prog.Holds I Q E (verify_generation g >>= f) s := by
  apply Prog.Holds.read_bind hs
  · intro e he
    refine hfail ?_ e
    rw [he]
    simp
  · exact fun _ hb => hok hb

/-- What a step of the materialization does. -/
def materializing (generation : LeanBunGenerationV1) (step : ManagerStep) (s s' : ProjectState) :
    Prop :=
  step = .Materialize ∧ (s' = s ∨ ∃ directory, s' = s.set_generation generation.transaction_id directory)

theorem check_steps {R : ManagerStep → ProjectState → ProjectState → Prop}
    {x : GenerationResult Unit} : (check x).Steps R := Prog.steps_lift

theorem inject_steps {R : ManagerStep → ProjectState → ProjectState → Prop}
    {actual expected : LeanGenerationFaultV1} {stage : String} :
    (inject actual expected stage).Steps R := check_steps

theorem change_directory_steps (f : GenerationDirectory → GenerationResult Unit × GenerationDirectory) :
    (change_directory g f).Steps (materializing g) := by
  apply Prog.steps_atomic
  intro s
  refine ⟨rfl, ?_⟩
  cases hdirectory : s.generations g.transaction_id with
  | none => exact Or.inl rfl
  | some directory => exact Or.inr ⟨(f directory).2, rfl⟩

theorem create_generation_root_steps : (create_generation_root g).Steps (materializing g) := by
  apply Prog.steps_atomic
  intro s
  refine ⟨rfl, ?_⟩
  cases hdirectory : s.generations g.transaction_id with
  | none => exact Or.inr ⟨_, rfl⟩
  | some directory => exact Or.inl rfl

theorem materialize_package_steps (objects : ObjectTrees) (package : GenerationPackageV1) :
    (materialize_package objects g package).Steps (materializing g) := by
  apply Prog.steps_lift.bind
  intro place
  apply (change_directory_steps _).bind
  intro _
  apply check_steps.bind
  intro _
  apply Prog.Steps.for_each
  intro entry _
  exact change_directory_steps _

/-- The materialization changes nothing but the directory of its generation. -/
theorem materialize_generation_steps (objects : ObjectTrees) (fault : LeanGenerationFaultV1) :
    (materialize_generation objects g fault).Steps (materializing g) := by
  have hfile : ∀ file, (write_generation_file g file).Steps (materializing g) := fun file =>
    change_directory_steps _
  have hpackages : (Prog.for_each (materialize_package objects g) g.packages).Steps
      (materializing g) := Prog.Steps.for_each fun package _ => materialize_package_steps objects package
  exact create_generation_root_steps.bind fun _ => (hfile _).bind fun _ => inject_steps.bind fun _ =>
    (hfile _).bind fun _ => inject_steps.bind fun _ => (hfile _).bind fun _ =>
    inject_steps.bind fun _ => (change_directory_steps _).bind fun _ => hpackages.bind fun _ =>
    inject_steps.bind fun _ => (hfile _).bind fun _ => inject_steps.bind fun _ =>
    inject_steps.bind fun _ => inject_steps.bind fun _ => change_directory_steps _

/-! ## The active record -/

/-- The text of the active record of a generation. -/
abbrev active_text (generation : LeanBunGenerationV1) : Str := active_bytes (active_record generation)

theorem active_text_small (generation : LeanBunGenerationV1) :
    byte_len (active_text generation) ≤ MAX_RECORD_BYTES := by
  apply active_bytes_small
  have hroot := generation.generation_root_valid
  unfold valid_absolute_path at hroot
  simp only [Bool.and_eq_true, decide_eq_true_eq] at hroot
  exact hroot.2

/-- The state right after the rename of the active record. -/
def activate (s : ProjectState) (generation : LeanBunGenerationV1) : ProjectState :=
  { s with
    active := some (active_text generation)
    active_temps := (s.active_temps ++ [active_text generation]).erase (active_text generation) }

/-- **Publishing the active record.** It succeeds exactly when the record can be
read back. -/
theorem Holds.publish_active {fault : LeanGenerationFaultV1} {Q : Unit → ProjectState → Prop}
    (hs : I s) (htemp : I { s with active_temps := s.active_temps ++ [active_text g] })
    (hfault : fault = .BeforeActiveRename →
      ∀ e, E e { s with active_temps := s.active_temps ++ [active_text g] })
    (hrenamed : I (activate s g))
    (hunclean : clean_value g.generation_root = false → ∀ e, E e (activate s g))
    (hclean : clean_value g.generation_root = true → Q () (activate s g)) :
    Prog.Holds I Q E (publish_active g fault) s := by
  have hactive : (activate s g).active = some (active_bytes (active_record g)) := rfl
  unfold LeanBun.Generation.publish_active
  apply Prog.Holds.write_bind hs
  apply Holds.inject_bind htemp hfault
  apply Prog.Holds.write_bind htemp
  show Prog.Holds I Q E _ (activate s g)
  by_cases hpath : clean_value g.generation_root = true
  · have hread : read_active (activate s g) = .ok (some (active_record g)) :=
      (read_active_bytes hactive).mpr ⟨rfl, hpath, active_text_small g⟩
    apply Prog.Holds.read_bind hrenamed
    · intro e he
      rw [hread] at he
      cases he
    intro observed hobserved
    rw [hread] at hobserved
    cases hobserved
    refine Prog.holds_lift.mpr ⟨hrenamed, fun _ _ => hclean hpath, ?_⟩
    intro e he
    have hsame : (active_record g).transaction = g.transaction_id ∧
        (active_record g).generation = g.identity ∧
        path_eq (active_record g).path g.generation_root = true := ⟨rfl, rfl, path_eq_self _⟩
    change (if _ then _ else _) = _ at he
    rw [if_pos hsame] at he
    cases he
  · have hall := hunclean (Bool.not_eq_true _ ▸ hpath)
    apply Prog.Holds.read_bind hrenamed
    · intro e _
      exact hall e
    intro observed hobserved
    cases observed with
    | none =>
      rw [read_active_none.mp hobserved] at hactive
      cases hactive
    | some record => exact absurd ((read_active_bytes hactive).mp hobserved).2.1 hpath

/-- The temporary records that a removal of the generation's leaves. -/
def other_temps (generation : LeanBunGenerationV1) (temps : List Str) : List Str :=
  temps.filter fun text => decide (text ≠ active_text generation)

theorem mem_other_temps {temps : List Str} {text : Str} (h : text ∈ other_temps g temps) :
    text ∈ temps := (List.mem_filter.mp h).1

@[simp] theorem other_temps_idempotent (temps : List Str) :
    other_temps g (other_temps g temps) = other_temps g temps := by
  unfold other_temps
  rw [List.filter_filter]
  simp only [Bool.and_self]

/-- The loop removes the generation's records among the ones that it still has to
look at. -/
theorem remove_active_temps {rest : List Str} (seen : List Str) {Q : Unit → ProjectState → Prop}
    (hsmall : ∀ text ∈ rest, byte_len text ≤ MAX_RECORD_BYTES)
    (hI : ∀ temps, (∀ text ∈ temps, text ∈ seen ++ rest) → I { s with active_temps := temps })
    (hQ : Q () { s with active_temps := other_temps g (seen ++ rest) }) :
    Prog.Holds I Q E (Prog.for_each (remove_active_temp (active_text g)) rest)
      { s with active_temps := other_temps g seen ++ rest } := by
  have hstart : I { s with active_temps := other_temps g seen ++ rest } := by
    apply hI
    intro text htext
    rcases List.mem_append.mp htext with h | h
    · exact List.mem_append_left _ (mem_other_temps h)
    · exact List.mem_append_right _ h
  induction rest generalizing seen with
  | nil =>
    rw [List.append_nil] at hQ hstart ⊢
    exact ⟨hstart, hQ⟩
  | cons text rest ih =>
    have hcut : seen ++ text :: rest = (seen ++ [text]) ++ rest := by simp
    have hnext : I { s with active_temps := other_temps g (seen ++ [text]) ++ rest } := by
      apply hI
      intro other hother
      rw [hcut]
      rcases List.mem_append.mp hother with h | h
      · exact List.mem_append_left _ (mem_other_temps h)
      · exact List.mem_append_right _ h
    have hrest := ih (seen ++ [text]) (fun other h => hsmall other (List.mem_cons_of_mem _ h))
      (by rw [← hcut]; exact hI) (by rw [← hcut]; exact hQ) hnext
    have hread := stable_read_small (hsmall text List.mem_cons_self)
    show Prog.Holds I Q E (remove_active_temp (active_text g) text >>= fun _ =>
      Prog.for_each (remove_active_temp (active_text g)) rest) _
    apply Prog.holds_bind.mpr
    refine Prog.Holds.atomic_ok (a := ()) ?_ hstart hnext hrest
    rw [hread]
    by_cases hsame : text = active_text g
    · have hout : text ∉ other_temps g seen := by
        intro hmem
        exact absurd hsame (of_decide_eq_true (List.mem_filter.mp hmem).2)
      have hfilter : other_temps g (seen ++ [text]) = other_temps g seen := by
        unfold other_temps
        rw [List.filter_append, List.filter_cons_of_neg (by simp [hsame]), List.filter_nil,
          List.append_nil]
      have herase : (other_temps g seen ++ text :: rest).erase text = other_temps g seen ++ rest := by
        rw [List.erase_append_right _ hout, List.erase_cons_head]
      rw [hfilter, ← herase]
      exact if_pos hsame
    · have hfilter : other_temps g (seen ++ [text]) = other_temps g seen ++ [text] := by
        unfold other_temps
        rw [List.filter_append, List.filter_cons_of_pos (by simp [hsame]), List.filter_nil]
      rw [hfilter, List.append_assoc]
      exact if_neg hsame

theorem Holds.remove_abandoned_active_temp {Q : Unit → ProjectState → Prop}
    (hsmall : ∀ text ∈ s.active_temps, byte_len text ≤ MAX_RECORD_BYTES)
    (hI : ∀ temps, (∀ text ∈ temps, text ∈ s.active_temps) → I { s with active_temps := temps })
    (hQ : Q () { s with active_temps := other_temps g s.active_temps }) :
    Prog.Holds I Q E (remove_abandoned_active_temp g) s := by
  have hs : I s := hI s.active_temps fun _ h => h
  unfold LeanBun.Generation.remove_abandoned_active_temp
  apply Prog.Holds.read_bind hs
  · intro e he
    cases he
  intro candidates hcandidates
  cases hcandidates
  exact remove_active_temps [] hsmall hI hQ

/-! ## Retained references -/

theorem retain_sorted {pairs : List Reference} (h : StrictlySorted reference_key pairs)
    (generation : LeanBunGenerationV1) : StrictlySorted reference_key (retain pairs generation) := by
  unfold retain
  generalize references generation = added
  induction added generalizing pairs with
  | nil => exact h
  | cons reference added ih => exact ih (insert_reference_sorted reference h)

/-- Retaining what is retained changes nothing. -/
theorem retain_idempotent (pairs : List Reference) (generation : LeanBunGenerationV1) :
    retain (retain pairs generation) generation = retain pairs generation := by
  unfold retain
  generalize references generation = added
  have hkeep : ∀ (added pairs : List Reference) (x : Reference), x ∈ pairs →
      x ∈ added.foldl insert_reference pairs := by
    intro added
    induction added with
    | nil => exact fun _ _ hx => hx
    | cons reference added ih =>
      exact fun pairs x hx => ih _ x (mem_insert_reference.mpr (Or.inr hx))
  have hadd : ∀ (added pairs : List Reference), ∀ x ∈ added, x ∈ added.foldl insert_reference pairs := by
    intro added
    induction added with
    | nil => exact fun _ _ hx => absurd hx List.not_mem_nil
    | cons reference added ih =>
      intro pairs x hx
      rcases List.mem_cons.mp hx with rfl | hx
      · exact hkeep added _ x (mem_insert_reference.mpr (Or.inl rfl))
      · exact ih _ x hx
  have hsame : ∀ (added pairs : List Reference), (∀ x ∈ added, x ∈ pairs) →
      added.foldl insert_reference pairs = pairs := by
    intro added
    induction added with
    | nil => exact fun _ _ => rfl
    | cons reference added ih =>
      intro pairs hmem
      have hone : insert_reference pairs reference = pairs := if_pos (hmem _ List.mem_cons_self)
      rw [List.foldl_cons, hone]
      exact ih pairs fun x hx => hmem x (List.mem_cons_of_mem _ hx)
  exact hsame added _ (hadd added pairs)

theorem read_retained_sorted {pairs : List Reference} (h : read_retained s = .ok pairs) :
    StrictlySorted reference_key pairs := by
  unfold read_retained at h
  obtain ⟨record, hrecord, h⟩ := bind_eq_ok.mp h
  rw [← Except.ok.inj h]
  cases record with
  | none => exact List.Pairwise.nil
  | some read =>
    cases hretained : s.retained with
    | none =>
      rw [hretained] at hrecord
      cases hrecord
    | some text =>
      rw [hretained] at hrecord
      exact parse_retained_sorted (read_optional_some.mp hrecord).2

/-- A retained record that is written is read back when it is small enough. -/
theorem read_retained_bytes {pairs : List Reference} (hsorted : StrictlySorted reference_key pairs)
    (hretained : s.retained = some (retained_bytes pairs)) :
    (read_retained s = .ok pairs ↔ byte_len (retained_bytes pairs) ≤ MAX_RECORD_BYTES) ∧
      ∀ read, read_retained s = .ok read → byte_len (retained_bytes pairs) ≤ MAX_RECORD_BYTES := by
  have hsmall : ∀ read, read_retained s = .ok read →
      byte_len (retained_bytes pairs) ≤ MAX_RECORD_BYTES := by
    intro read hread
    unfold read_retained at hread
    rw [hretained] at hread
    obtain ⟨record, hrecord, -⟩ := bind_eq_ok.mp hread
    cases record with
    | none => cases read_optional_none.mp hrecord
    | some record => exact (read_optional_some.mp hrecord).1
  refine ⟨⟨hsmall pairs, fun hle => ?_⟩, hsmall⟩
  unfold read_retained
  rw [hretained, read_optional_some.mpr
    ⟨hle, parse_retained_bytes hsorted (retained_bytes_length hle)⟩]
  rfl

/-- The references of the generation still fit into the retained record. -/
def fits (s : ProjectState) (generation : LeanBunGenerationV1) : Prop :=
  ∃ pairs, read_retained s = .ok pairs ∧
    byte_len (retained_bytes (retain pairs generation)) ≤ MAX_RECORD_BYTES

/-- The text of the retained record after `update_retained`. -/
def Retains (s : ProjectState) (generation : LeanBunGenerationV1) (text : Str) : Prop :=
  ∃ pairs, read_retained s = .ok pairs ∧ text = retained_bytes (retain pairs generation)

theorem Holds.update_retained {Q : Unit → ProjectState → Prop} (hs : I s)
    (hunread : (∀ pairs, read_retained s ≠ .ok pairs) → ∀ e, E e s)
    (hwritten : ∀ text, Retains s g text → I { s with retained := some text } ∧
      (MAX_RECORD_BYTES < byte_len text → ∀ e, E e { s with retained := some text }) ∧
      (byte_len text ≤ MAX_RECORD_BYTES → Q () { s with retained := some text })) :
    Prog.Holds I Q E (update_retained g) s := by
  unfold LeanBun.Generation.update_retained
  apply Prog.Holds.read_bind hs
  · intro e he
    refine hunread (fun pairs hpairs => ?_) e
    rw [he] at hpairs
    cases hpairs
  intro pairs hpairs
  obtain ⟨hI, hlarge, hsmall⟩ := hwritten _ ⟨pairs, hpairs, rfl⟩
  apply Prog.Holds.write_bind hs
  refine Prog.holds_read.mpr ⟨hI, ?_, ?_⟩
  · intro _ hexact
    exact hsmall (require_exact_same.mp hexact)
  · intro e he
    refine hlarge (Nat.lt_of_not_le fun hle => ?_) e
    rw [show require_exact (some (retained_bytes (retain pairs g)))
      (retained_bytes (retain pairs g)) .RecordDrift = .ok () from require_exact_same.mpr hle] at he
    cases he

end LeanBun.Generation
