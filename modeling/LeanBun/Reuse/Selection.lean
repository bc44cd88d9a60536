/-
What a transaction selects.

A list of the records has every record of the store, whichever operations fail before it is
complete, and it does not depend on the order of the directory. So the candidate of a
snapshot is the record that finished last among all the compatible ones in the store.
-/
import LeanBun.Execution.Undisturbed
import LeanBun.Lib.Check
import LeanBun.Reuse.Transaction

set_option autoImplicit false

namespace LeanBun.Reuse

open LeanBun.Lib LeanBun.Core LeanBun.Execution

/-! ## Looking without changing -/

/-- A program that leaves the state as it is and returns what `F` says. -/
abbrev Looks {α : Type} (s : StateRoot) (F : α → Prop) (p : StoreProg α) : Prop :=
  Prog.Holds (fun t => t = s) (fun a t => t = s ∧ F a) (fun _ t => t = s) p s

section Looks

variable {α β : Type} {s : StateRoot} {F : α → Prop} {G : β → Prop} {env : Environment}

theorem Looks.bind {p : StoreProg β} {f : β → StoreProg α} (h : Looks s G p)
    (hf : ∀ b, G b → Looks s F (f b)) : Looks s F (p >>= f) := by
  refine Prog.Holds.bind (J := fun b t => t = s ∧ G b) h fun b t _ hb => ?_
  rw [hb.1]
  exact hf b hb.2

theorem Looks.weaken {G' : α → Prop} {p : StoreProg α} (h : Looks s F p) (hF : ∀ a, F a → G' a) :
    Looks s G' p :=
  Prog.Holds.mono h (fun _ hs => hs) (fun a _ _ hs => ⟨hs.1, hF a hs.2⟩) fun _ _ _ hs => hs

theorem looks_pure {a : α} (ha : F a) : Looks s F (pure a) := ⟨rfl, rfl, ha⟩

theorem looks_fail {e : StoreFailure} : Looks s F (.fail e) := ⟨rfl, rfl⟩

theorem looks_throw {code : StoreCode} {message : JsString} : Looks s F (throw_store code message) :=
  ⟨rfl, rfl⟩

theorem looks_lift {x : Except StoreFailure α} (h : ∀ a, x = .ok a → F a) :
    Looks s F (Prog.lift x) :=
  Prog.holds_lift.mpr ⟨rfl, fun a ha => ⟨rfl, h a ha⟩, fun _ _ => rfl⟩

theorem looks_inspect {op : Operation} {f : StateRoot → Except StoreFailure α}
    (h : ∀ a, f s = .ok a → F a) : Looks s F (env.inspect op f) := by
  unfold Environment.inspect Environment.perform Environment.perform_labelled
  cases env.faults [] op with
  | some message => exact looks_fail
  | none =>
    refine Prog.holds_atomic.mpr ⟨rfl, rfl, fun a ha => ⟨rfl, h a ha⟩, fun _ _ => rfl⟩

/-- A record that is read is the one in the store. -/
theorem looks_read_record (env : Environment) {stateRoot id : JsString} :
    Looks s (RecordReads env.date_parse s id) (readRecord env stateRoot id) := by
  unfold readRecord inspect_record read_record
  refine (looks_inspect (F := fun _ => ∀ file, (s.executions id).record = some file →
    byte_len file.text ≤ 64 * 1024) ?_).bind fun _ hbounded => looks_inspect ?_
  · intro _ hread file hfile
    rw [hfile] at hread
    dsimp only at hread
    by_contra hlarge
    rw [if_pos (not_le.mp hlarge)] at hread
    cases hread
  · intro d hread
    cases hfile : (s.executions id).record with
    | none =>
      rw [hfile] at hread
      cases hread
    | some file =>
      rw [hfile, Option.bind_some] at hread
      cases hdocument : file.document with
      | none =>
        rw [hdocument] at hread
        cases hread
      | some document =>
        rw [hdocument] at hread
        dsimp only at hread
        by_cases hvalid : valid_record env.date_parse document = true
        · rw [if_pos hvalid, Except.ok.injEq] at hread
          rw [← hread]
          exact ⟨file, hfile, hdocument, hbounded file hfile, hvalid⟩
        · rw [if_neg hvalid] at hread
          cases hread

theorem looks_find_executions (env : Environment) {stateRoot : JsString} :
    Looks s (fun _ => True) (prepareExecutionDirectory env stateRoot false) := by
  unfold prepareExecutionDirectory make_executions_directory
  rw [if_neg Bool.false_ne_true]
  refine Looks.bind (G := fun created => created = false) (looks_pure rfl) fun created hcreated => ?_
  rw [hcreated]
  exact (looks_inspect fun _ _ => trivial).bind fun _ (_ : True) => looks_pure trivial

theorem looks_load_record (env : Environment) {stateRoot id : JsString} :
    Looks s (fun stored => RecordReads env.date_parse s id stored.document)
      (loadExecutionRecord env stateRoot id) := by
  unfold loadExecutionRecord
  by_cases hid : (!execution_id_pattern id) = true
  · rw [if_pos hid]
    exact looks_throw
  · rw [if_neg hid]
    refine (looks_find_executions (env.part 0)).bind fun _ _ => ?_
    have hread : Looks s (RecordReads env.date_parse s id)
        ((readRecord (env.part 1) stateRoot id).map_error (missing_record stateRoot id)) :=
      Prog.holds_map_error.mpr (looks_read_record (env.part 1))
    refine hread.bind fun d hd => ?_
    unfold verifiedStoredRecord
    refine (looks_read_record ((env.part 2).part 0)).bind fun document hdocument => ?_
    by_cases hsame : document = d
    · rw [if_neg (not_not.mpr hsame)]
      exact (looks_inspect (F := fun _ => True) fun _ _ => trivial).bind fun _ _ =>
        looks_pure hdocument
    · rw [if_pos hsame]
      exact looks_throw

end Looks

/-! ## The list of the records -/

/-- The document of a record file. -/
def StoredAt (s : StateRoot) (id : JsString) (d : ControlledBuildExecutionRecordV1) : Prop :=
  ∃ file, (s.executions id).record = some file ∧ file.document = some d

/-- What `readdir` of the directory of records promises: it names every file once, and the
record files are there exactly. -/
structure ListsRecords (readdir : StateRoot → List JsString) (s : StateRoot) : Prop where
  nodup : (readdir s).Nodup
  records : ∀ id, id ++ js ".json" ∈ readdir s ↔ ((s.executions id).record).isSome = true

/-- The list is one of the records in the store, and unless it is empty it has them all. -/
structure Lists (date_parse : JsString → Option ℤ) (s : StateRoot)
    (records : List StoredExecutionRecord) : Prop where
  stored : ∀ stored ∈ records, ∃ id, StoredAt s id stored.document ∧
    valid_record date_parse stored.document = true
  complete : records ≠ [] → ∀ id d, StoredAt s id d → ∃ stored ∈ records, stored.document = d

theorem mem_record_ids {entries : List JsString} {id : JsString} :
    id ∈ record_ids entries ↔ id ++ js ".json" ∈ entries := by
  have hlength : (js ".json").length = 5 := by decide
  unfold record_ids
  rw [List.mem_map]
  constructor
  · rintro ⟨name, hname, rfl⟩
    rw [mem_sort_by_key, List.mem_filter, List.isSuffixOf_iff_suffix] at hname
    obtain ⟨hmem, front, rfl⟩ := hname
    rw [List.length_append, hlength, Nat.add_sub_cancel, List.take_left]
    exact hmem
  · intro hmem
    refine ⟨id ++ js ".json", ?_, ?_⟩
    · rw [mem_sort_by_key, List.mem_filter, List.isSuffixOf_iff_suffix]
      exact ⟨hmem, List.suffix_append _ _⟩
    · rw [List.length_append, hlength, Nat.add_sub_cancel, List.take_left]

theorem units_injective : Function.Injective fun name : JsString => name.map UInt16.toNat :=
  List.map_injective_iff.mpr fun _ _ h => UInt16.toNat_inj.mp h

/-- **The order of the directory does not matter.** -/
theorem record_ids_order {readdir readdir' : StateRoot → List JsString} {s : StateRoot}
    (h : ListsRecords readdir s) (h' : ListsRecords readdir' s) :
    record_ids (readdir s) = record_ids (readdir' s) := by
  unfold record_ids
  refine congrArg _ (sort_by_key_perm_eq_of_injective _ ?_ units_injective)
  refine (List.perm_ext_iff_of_nodup (h.nodup.filter _) (h'.nodup.filter _)).mpr fun name => ?_
  rw [List.mem_filter, List.mem_filter]
  refine and_congr_left fun hsuffix => ?_
  obtain ⟨id, rfl⟩ := List.isSuffixOf_iff_suffix.mp hsuffix
  rw [h.records, h'.records]

section Listing

variable {env : Environment} {s : StateRoot} {stateRoot : JsString}

theorem looks_load_records (env : Environment) (ids : List JsString) :
    Looks s (List.Forall₂ (fun id stored => RecordReads env.date_parse s id stored.document) ids)
      (load_records env stateRoot ids) := by
  induction ids generalizing env with
  | nil => exact looks_pure .nil
  | cons id ids ih =>
    unfold load_records
    exact (looks_load_record (env.part 0)).bind fun stored hstored =>
      (ih (env.part 1)).bind fun rest hrest => looks_pure (.cons hstored hrest)

/-- **Listing.** -/
theorem looks_list {readdir : StateRoot → List JsString} (hreaddir : ListsRecords readdir s) :
    Looks s (Lists env.date_parse s) (listExecutionRecords env readdir stateRoot) := by
  have hempty : Lists env.date_parse s [] :=
    ⟨fun _ h => absurd h List.not_mem_nil, fun h => absurd rfl h⟩
  unfold listExecutionRecords
  refine (looks_inspect (F := fun _ => True) fun _ _ => trivial).bind fun present _ => ?_
  by_cases hpresent : (!present) = true
  · rw [if_pos hpresent]
    exact looks_pure hempty
  rw [if_neg hpresent]
  refine (looks_find_executions (env.part 0)).bind fun _ _ =>
    (looks_inspect (F := fun ids => ids = record_ids (readdir s)) fun ids hids => (Except.ok.inj hids).symm).bind fun ids hids => ?_
  by_cases hmany : 10000 < ids.length
  · rw [if_pos hmany]
    exact looks_throw
  rw [if_neg hmany]
  by_cases hpattern : (ids.any fun id => !execution_id_pattern id) = true
  · rw [if_pos hpattern]
    exact looks_throw
  rw [if_neg hpattern]
  refine (looks_load_records (env.part 2) ids).weaken fun records hrecords => ⟨?_, fun _ => ?_⟩
  · intro stored hstored
    obtain ⟨id, -, file, hfile, hreadable⟩ := forall₂_partner hrecords.flip hstored
    exact ⟨id, ⟨file, hfile, hreadable.document⟩, hreadable.valid⟩
  · rintro id d ⟨file, hfile, hdocument⟩
    have hmem : id ∈ ids := by
      rw [hids, mem_record_ids, hreaddir.records, hfile]
      rfl
    obtain ⟨stored, hstored, other, hother, hreadable⟩ := forall₂_partner hrecords hmem
    refine ⟨stored, hstored, ?_⟩
    rw [hfile, Option.some.injEq] at hother
    rw [← Option.some.injEq, ← hdocument, hother, hreadable.document]

end Listing

/-! ## The snapshot -/

/-- The document is compatible: as a stored record it is a candidate. -/
def Compatible (identity : ReuseIdentity) (d : ControlledBuildExecutionRecordV1) : Prop :=
  successfulCandidate ⟨[], [], d⟩ identity = true

/-- The record that is selected among those in the store. -/
structure Chosen (date_parse : JsString → Option ℤ) (s : StateRoot) (identity : ReuseIdentity)
    (d : ControlledBuildExecutionRecordV1) : Prop where
  stored : ∃ id, StoredAt s id d
  valid : valid_record date_parse d = true
  compatible : Compatible identity d
  latest : ∀ id other, StoredAt s id other → Compatible identity other →
    finish_time date_parse other ≤ finish_time date_parse d

/-- What an eligible snapshot says. -/
def Eligible (date_parse : JsString → Option ℤ) (s : StateRoot) (identity : ReuseIdentity)
    (trees : Except StoreFailure (CanonicalTreeHash × CanonicalTreeHash))
    (snapshot : ReuseSnapshot) : Prop :=
  snapshot.eligible = true → ∃ candidate evidence input output,
    snapshot.candidate = some candidate ∧ Chosen date_parse s identity candidate.document ∧
    reuse_evidence candidate.document = some evidence ∧ trees = .ok (input, output) ∧
    SameTree evidence.projectInput input ∧ SameTree evidence.projectOutput output

theorem not_eligible {date_parse : JsString → Option ℤ} {s : StateRoot} {identity : ReuseIdentity}
    {trees : Except StoreFailure (CanonicalTreeHash × CanonicalTreeHash)} :
    Eligible date_parse s identity trees no_snapshot := fun h => absurd h Bool.false_ne_true

/-- **The snapshot.** An eligible one names the latest compatible record of the store, and
the trees of the project are the recorded ones. -/
theorem looks_evaluate {env : ReuseEnvironment} {s : StateRoot} {stateRoot : JsString}
    {identity : ReuseIdentity}
    {trees : Except StoreFailure (CanonicalTreeHash × CanonicalTreeHash)}
    (hreaddir : ListsRecords env.readdir s) :
    Looks s (Eligible env.date_parse s identity trees)
      (evaluateReuseSnapshot env stateRoot identity trees) := by
  unfold evaluateReuseSnapshot
  refine (looks_list hreaddir).bind fun records hrecords => ?_
  cases hselected : selectReuseCandidate env.date_parse env.collation_key records identity with
  | none => exact looks_pure not_eligible
  | some candidate =>
    dsimp only
    obtain ⟨hmem, hcandidate, hlatest⟩ := selected_latest hselected
    obtain ⟨id, hstored, hvalid⟩ := hrecords.stored candidate hmem
    have hchosen : Chosen env.date_parse s identity candidate.document := by
      refine ⟨⟨id, hstored⟩, hvalid, hcandidate, fun other_id other hother hcompatible => ?_⟩
      obtain ⟨stored, hstored', rfl⟩ := hrecords.complete (List.ne_nil_of_mem hmem) _ _ hother
      exact hlatest stored hstored' hcompatible
    cases hevidence : reuse_evidence candidate.document with
    | none => exact looks_pure not_eligible
    | some evidence =>
      dsimp only
      refine (looks_lift (F := fun found => trees = .ok found) fun found hfound => hfound).bind
        fun found hfound => looks_pure fun heligible => ?_
      obtain ⟨hinput, houtput⟩ := Bool.and_eq_true_iff.mp heligible
      exact ⟨candidate, evidence, found.1, found.2, rfl, hchosen, hevidence, hfound,
        same_tree_of_matches hinput, same_tree_of_matches houtput⟩

end LeanBun.Reuse
