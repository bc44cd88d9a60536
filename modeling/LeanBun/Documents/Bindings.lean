/-
Project bindings and image attestations.

Both stores keep the first document that is published, whatever calls there are and wherever
they stop. A later call returns the document that is there, if it is the same but for its
timestamps, and a reader sees all of it or nothing.
-/
import LeanBun.Documents.Runs

set_option autoImplicit false

namespace LeanBun.Documents

open LeanBun.Lib LeanBun.Core LeanBun.Execution

/-! ## Comparing documents -/

/-- Objects with the same members in the same order, but for the values of some. -/
def Agrees (names : List JsString) (left right : Json) : Prop :=
  ∃ entries entries', left = .object entries ∧ right = .object entries' ∧
    List.Forall₂ (fun entry entry' => entry.1 = entry'.1 ∧ (entry.1 ∉ names → entry.2 = entry'.2))
      entries entries'

/-- An entry without its value, if it is one of these. -/
def blank_entry (names : List JsString) (entry : JsString × Json) : JsString × Json :=
  if entry.1 ∈ names then (entry.1, .string []) else entry

theorem set_member_present {name : JsString} {entries : List (JsString × Json)}
    (h : name ∈ entries.map Prod.fst) (value : Json) :
    set_member name value entries =
      entries.map fun entry => if entry.1 = name then (name, value) else entry := by
  obtain ⟨entry, hentry, hname⟩ := List.mem_map.mp h
  unfold set_member
  rw [if_pos (List.any_eq_true.mpr ⟨entry, hentry, by simp [hname]⟩)]

theorem blank_entries (names : List JsString) {entries : List (JsString × Json)}
    (h : ∀ name ∈ names, name ∈ entries.map Prod.fst) :
    names.foldl (fun entries name => set_member name (.string []) entries) entries =
      entries.map (blank_entry names) := by
  induction names generalizing entries with
  | nil =>
    have hid : blank_entry [] = id := by
      funext entry
      simp [blank_entry]
    rw [hid, List.map_id]
    rfl
  | cons name names ih =>
    have hset := set_member_present (h name List.mem_cons_self) (.string [])
    have hkeys : (set_member name (.string []) entries).map Prod.fst = entries.map Prod.fst := by
      rw [hset, List.map_map]
      apply List.map_congr_left
      intro entry _
      by_cases hentry : entry.1 = name <;> simp [hentry]
    rw [List.foldl_cons, ih fun other hother => by
      rw [hkeys]
      exact h other (List.mem_cons_of_mem _ hother), hset, List.map_map]
    apply List.map_congr_left
    intro entry _
    by_cases hentry : entry.1 = name
    · simp [blank_entry, hentry]
    · simp [blank_entry, hentry]

/-- **Equal but for some members.** -/
theorem agrees_of_blank {names : List JsString} {entries entries' : List (JsString × Json)}
    (h : ∀ name ∈ names, name ∈ entries.map Prod.fst)
    (h' : ∀ name ∈ names, name ∈ entries'.map Prod.fst)
    (hsame : (Json.object entries).blank names = (Json.object entries').blank names) :
    Agrees names (.object entries) (.object entries') := by
  refine ⟨entries, entries', rfl, rfl, ?_⟩
  unfold Json.blank at hsame
  dsimp only at hsame
  rw [blank_entries names h, blank_entries names h', Json.object.injEq] at hsame
  clear h h'
  induction entries generalizing entries' with
  | nil =>
    cases entries' with
    | nil => exact .nil
    | cons entry' entries' => exact absurd hsame (by simp)
  | cons entry entries ih =>
    cases entries' with
    | nil => exact absurd hsame (by simp)
    | cons entry' entries' =>
      rw [List.map_cons, List.map_cons, List.cons.injEq] at hsame
      refine .cons ?_ (ih hsame.2)
      have hentry := hsame.1
      unfold blank_entry at hentry
      by_cases hname : entry.1 ∈ names
      · refine ⟨?_, fun hnot => absurd hname hnot⟩
        rw [if_pos hname] at hentry
        by_cases hname' : entry'.1 ∈ names
        · rw [if_pos hname'] at hentry
          exact (Prod.mk.inj hentry).1
        · rw [if_neg hname'] at hentry
          rw [← hentry]
      · rw [if_neg hname] at hentry
        by_cases hname' : entry'.1 ∈ names
        · rw [if_pos hname'] at hentry
          rw [hentry] at hname
          exact absurd hname' hname
        · rw [if_neg hname'] at hentry
          exact ⟨by rw [hentry], fun _ => by rw [hentry]⟩

/-- A document that was decoded is valid. -/
theorem valid_of_decode {store : DocumentStore} {runtime : Runtime} {bytes : List UInt8}
    {path sha256 : JsString} {document : Json}
    (h : store.decode runtime bytes = .ok (.valid path sha256 document)) :
    store.valid document = .ok true := by
  unfold DocumentStore.decode at h
  split at h
  · exact absurd h (by simp)
  · split at h
    · exact absurd h (by simp)
    · split at h
      · exact absurd h (by simp)
      · rename_i hvalid
        obtain ⟨-, -, rfl⟩ := LoadedDocument.valid.inj (Except.ok.inj h)
        exact hvalid
      · exact absurd h (by simp)

/-- **The comparison of a store** accepts a document of its own only if the two agree. -/
theorem agrees_of_same {store : DocumentStore} {runtime : Runtime} {bytes : List UInt8}
    {path sha256 : JsString} {existing : Json} (document : DocumentObject store.fields)
    (hdecode : store.decode runtime bytes = .ok (.valid path sha256 existing))
    (hsame : store.same existing document.value = true) :
    Agrees store.timestamps document.value existing := by
  obtain ⟨entries, rfl, hpresent⟩ := store.valid_timestamps _ (valid_of_decode hdecode)
  apply agrees_of_blank _ hpresent
  · exact (compact_injective (of_decide_eq_true hsame)).symm
  · intro name hname
    exact document.keys.mem_iff.mpr (store.timestamps_fields name hname)

/-! ## Runs -/

section Runs

variable {ι π : Type} [DecidableEq ι] [DecidableEq π] {store : DocumentStore} {runtime : Runtime}
  {calls : ι → Call store} {home : ι → π}

/-- The document of a call. -/
def Call.document {store : DocumentStore} : Call store → Option Json
  | .store _ document _ => some document.value
  | .load _ => none

/-- What is known of the result of a call. -/
def Result (store : DocumentStore) (runtime : Runtime) (calls : ι → Call store) (i : ι)
    (result : Except StoreFailure CallResult) (s : StoreFiles ι) : Prop :=
  match result with
  | .ok (.stored stored) => ∃ document : DocumentObject store.fields,
      (calls i).document = some document.value ∧ Returned store runtime i document.value stored s
  | .ok (.loaded loaded) => Loaded store runtime i loaded s
  | .error _ => True

/-- Every call does what it may, and returns what it should. -/
theorem call_guarded (i : ι) {s : StoreFiles ι} :
    ((calls i).program runtime i).Guarded
      (fun l s => System.AnyStep l s ∧ Sound (fun j => (calls j).document) s) (Others i)
      (fun _ s s' => Sound (fun j => (calls j).document) s' ∧ Mine i s s')
      (Result store runtime calls i) s := by
  have hobeys : Obeys (fun j => (calls j).document) i (fun _ => True)
      ((calls i).program runtime i) (fun result => Result store runtime calls i (.ok result))
      fun _ _ => True := by
    cases hcall : calls i with
    | load env =>
      apply (obeys_load_document (P := fun _ => True) steady_fact).bind
      intro loaded
      exact Prog.does_pure (steady_fact.and (steady_loaded loaded)) fun _ h => h.2
    | store env document belongs =>
      have hdocument : (calls i).document = some document.value := by
        rw [hcall]
        rfl
      apply (obeys_check (Q := fun _ _ => True) steady_fact (fun _ _ _ _ => trivial)
        fun _ _ _ _ => trivial).bind
      intro _
      apply (obeys_store_document (i := i) hdocument).bind
      intro stored
      exact Prog.does_pure (steady_returned stored) fun _ h => ⟨document, hdocument, h⟩
  refine (hobeys.guarded s trivial).mono (fun _ _ h => h) (fun _ _ _ h => h) ?_
  intro result t h
  cases result with
  | ok result => exact h
  | error e => exact trivial

omit [DecidableEq ι] in
theorem fresh_sound {documents : ι → Option Json} {s : StoreFiles ι} (h : Fresh s) :
    Sound documents s := fun i hi => absurd hi (h.target i)

omit [DecidableEq ι] in
/-- The step and the end of a process, in the form of the rule for all threads. -/
theorem call_step (documents : ι → Option Json) (i : ι) (l : Unit) (s s' : StoreFiles ι)
    (_ : System.AnyStep l s) (_ : Sound documents s) (h : Sound documents s' ∧ Mine i s s') :
    Sound documents s' ∧ ∀ j, j ≠ i → Others j s s' := ⟨h.1, fun _ hj => h.2.others hj⟩

omit [DecidableEq ι] in
theorem others_refl (i : ι) (s : StoreFiles ι) : Others i s s :=
  ⟨Iff.rfl, fun _ => rfl, rfl, fun _ _ => .inl rfl, .refl s⟩

/-- **At every moment** a target of the calls is complete, and what calls have returned is so. -/
theorem run_result {s : StoreFiles ι} (hs : Fresh s)
    {pool : Pool ι (StoreFiles ι) Unit StoreFailure CallResult}
    (hrun : (call_system store runtime calls home).Run System.AnyStep s pool) :
    Sound (fun j => (calls j).document) pool.shared ∧ ∀ i result,
      pool.threads i = some (.done result) → Result store runtime calls i (.ok result) pool.shared := by
  obtain ⟨hsound, hthreads⟩ := System.Run.guarded (fresh_sound hs)
    (fun i => @call_guarded ι _ store runtime calls i _)
    (call_step _) (fun _ s hs => ⟨hs, fun j _ => others_refl j s⟩) hrun
  refine ⟨hsound, fun i result hdone => ?_⟩
  exact (hthreads i _ hdone).result (x := .ok result)

/-- **Between two moments** a target stays. -/
theorem run_kept {s : StoreFiles ι} (hs : Fresh s)
    {pool pool' : Pool ι (StoreFiles ι) Unit StoreFailure CallResult}
    (hrun : (call_system store runtime calls home).Run System.AnyStep s pool)
    (hmore : Relation.ReflTransGen
      ((call_system store runtime calls home).Move System.AnyStep) pool pool') :
    Kept pool.shared pool'.shared :=
  System.Run.keeps (fresh_sound hs)
    (fun i => @call_guarded ι _ store runtime calls i _)
    (call_step _) (fun _ s hs => ⟨hs, fun j _ => others_refl j s⟩) Kept.refl
    (fun _ _ _ => Kept.trans) (fun _ _ _ _ h => h.2.keeps) (fun _ s => Kept.refl s) hrun hmore

end Runs

/-- **Write once.** What holds of a store at a moment of a run and at a later one. -/
structure WriteOnce {ι : Type} (store : DocumentStore) (runtime : Runtime) (calls : ι → Call store)
    (pool pool' : Pool ι (StoreFiles ι) Unit StoreFailure CallResult) : Prop where
  /-- The bytes of a target never change. -/
  kept : ∀ f, pool.shared.target = some f →
    pool'.shared.target = some f ∧ pool'.shared.files f = pool.shared.files f
  /-- At most one call has stored its document. -/
  once : ∀ i j stored stored', pool.threads i = some (.done (.stored stored)) →
    pool'.threads j = some (.done (.stored stored')) →
      stored.status = .stored → stored'.status = .stored → i = j
  /-- A call has returned what the target holds, and that agrees with its argument. -/
  returned : ∀ i stored, pool.threads i = some (.done (.stored stored)) →
    ∃ document : DocumentObject store.fields, (calls i).document = some document.value ∧
      Agrees store.timestamps document.value stored.document ∧
        ∃ f, pool.shared.target = some f ∧
          store.decode runtime (pool.shared.files f).bytes =
            .ok (.valid stored.path stored.sha256 stored.document)
  /-- A target is complete from the start. -/
  complete : ∀ i, pool.shared.target = some (.call i) → ∃ document,
    (calls i).document = some document ∧
      (pool.shared.files (.call i)).bytes = canonical_bytes document
  /-- A reader has seen no target, or all of it, or nothing at all. -/
  seen : ∀ i loaded, pool.threads i = some (.done (.loaded loaded)) →
    loaded = .missing store.target ∨
      (∃ f, pool.shared.target = some f ∧
        store.decode runtime (pool.shared.files f).bytes = .ok loaded) ∨
          ∃ message, loaded = .invalid store.target message none

section WriteOnce

variable {ι π : Type} [DecidableEq ι] [DecidableEq π] {store : DocumentStore} {runtime : Runtime}
  {calls : ι → Call store} {home : ι → π}

/-- **Every run** of a store writes once. -/
theorem run_writes_once {s : StoreFiles ι} (hs : Fresh s)
    {pool pool' : Pool ι (StoreFiles ι) Unit StoreFailure CallResult}
    (hrun : (call_system store runtime calls home).Run System.AnyStep s pool)
    (hmore : Relation.ReflTransGen
      ((call_system store runtime calls home).Move System.AnyStep) pool pool') :
    WriteOnce store runtime calls pool pool' := by
  obtain ⟨hsound, hresult⟩ := run_result hs hrun
  have hkept := run_kept hs hrun hmore
  refine ⟨hkept, ?_, ?_, ?_, ?_⟩
  · intro i j stored stored' hi hj hstored hstored'
    obtain ⟨_, -, f, htarget, -, hown⟩ := hresult i _ hi
    obtain ⟨_, -, f', htarget', -, hown'⟩ := (run_result hs (hrun.trans hmore)).2 j _ hj
    have hsame := (hkept f htarget.1).1
    rw [(hown hstored).1] at hsame
    rw [(hown' hstored').1] at htarget'
    exact Maker.call.inj (Option.some.inj (hsame.symm.trans htarget'.1))
  · intro i stored hi
    obtain ⟨document, hdocument, f, ⟨htarget, hdecode⟩, hsame, -⟩ := hresult i _ hi
    exact ⟨document, hdocument, agrees_of_same document hdecode hsame, f, htarget, hdecode⟩
  · intro i hi
    obtain ⟨document, hdocument, hfile⟩ := hsound i hi
    exact ⟨document, hdocument, by rw [hfile]⟩
  · intro i loaded hi
    obtain ⟨hmissing, -⟩ | ⟨f, htarget, hdecode⟩ | hfailed := hresult i _ hi
    · exact .inl hmissing
    · exact .inr (.inl ⟨f, htarget, hdecode⟩)
    · exact .inr (.inr hfailed)

end WriteOnce

end LeanBun.Documents
