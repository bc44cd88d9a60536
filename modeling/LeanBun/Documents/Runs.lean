/-
Calls of one store at the same time.

A call changes the target only while it holds the lock file and has seen that there is no
target; nobody else takes the lock file away from it. Its document file is complete by then,
and no call writes to a file of another one or to the target. So a target stays as it is
from the moment it is there, and it has been complete all the time.

`Others i` is what the calls other than `i` may do in front of a step of `i`, and `Mine i`
what a step of `i` does.
-/
import LeanBun.Documents.Store

set_option autoImplicit false

namespace LeanBun.Documents

open LeanBun.Lib LeanBun.Core LeanBun.Execution

variable {ι : Type}

/-! ## What calls do to each other -/

/-- The call has the lock file. -/
def Held (i : ι) (s : StoreFiles ι) : Prop := s.lock = some (.call i)

/-- A target stays, and so does its file. -/
def Kept (s s' : StoreFiles ι) : Prop :=
  ∀ f, s.target = some f → s'.target = some f ∧ s'.files f = s.files f

/-- A step of another call. -/
structure Others (i : ι) (s s' : StoreFiles ι) : Prop where
  lock : Held i s ↔ Held i s'
  target : Held i s → s'.target = s.target
  file : s'.files (.call i) = s.files (.call i)
  temporary : Held i s → ∀ name, s'.temporary name = s.temporary name ∨ s'.temporary name = none
  kept : Kept s s'

/-- A step of the call itself. -/
structure Mine (i : ι) (s s' : StoreFiles ι) : Prop where
  lock : s'.lock = s.lock ∨ s.lock = none ∧ s'.lock = some (.call i) ∨ Held i s ∧ s'.lock = none
  target : s'.target = s.target ∨ Held i s ∧ s.target = none ∧ s'.target = some (.call i)
  files : ∀ f, f ≠ .call i → s'.files f = s.files f
  kept : ∀ f, s.target = some f → s'.files f = s.files f
  temporary : ∀ name, s'.temporary name = s.temporary name ∨ s'.temporary name = none ∨ Held i s

/-- **What one call does** is what the others have to expect. -/
theorem Mine.others {i j : ι} (hne : j ≠ i) {s s' : StoreFiles ι} (h : Mine i s s') :
    Others j s s' := by
  have hcall : (Maker.call j : Maker ι) ≠ .call i := fun heq => hne (Maker.call.inj heq)
  have hnot : Held j s → ¬Held i s := by
    intro hj hi
    exact hcall (Option.some.inj (hj.symm.trans hi))
  refine ⟨?_, ?_, h.files _ hcall, ?_, ?_⟩
  · unfold Held
    obtain hlock | ⟨hnone, hlock⟩ | ⟨hheld, hlock⟩ := h.lock
    · rw [hlock]
    · rw [hlock, hnone]
      exact iff_of_false (by simp) fun heq => hcall (Option.some.inj heq).symm
    · rw [hlock]
      exact iff_of_false (fun hj => hnot hj hheld) (by simp)
  · intro hj
    obtain htarget | ⟨hheld, -⟩ := h.target
    · exact htarget
    · exact absurd hheld (hnot hj)
  · intro hj name
    obtain htemporary | htemporary | hheld := h.temporary name
    · exact .inl htemporary
    · exact .inr htemporary
    · exact absurd hheld (hnot hj)
  · intro f hf
    refine ⟨?_, h.kept f hf⟩
    obtain htarget | ⟨-, hnone, -⟩ := h.target
    · exact htarget.trans hf
    · exact absurd (hf.symm.trans hnone) (by simp)

theorem Mine.keeps {i : ι} {s s' : StoreFiles ι} (h : Mine i s s') : Kept s s' := by
  intro f hf
  refine ⟨?_, h.kept f hf⟩
  obtain htarget | ⟨-, hnone, -⟩ := h.target
  · exact htarget.trans hf
  · exact absurd (hf.symm.trans hnone) (by simp)

theorem Mine.refl (i : ι) (s : StoreFiles ι) : Mine i s s :=
  ⟨.inl rfl, .inl rfl, fun _ _ => rfl, fun _ _ => rfl, fun _ => .inl rfl⟩

theorem Kept.refl (s : StoreFiles ι) : Kept s s := fun _ hf => ⟨hf, rfl⟩

theorem Kept.trans {s s' s'' : StoreFiles ι} (h : Kept s s') (h' : Kept s' s'') : Kept s s'' := by
  intro f hf
  obtain ⟨htarget, hfile⟩ := h f hf
  obtain ⟨htarget', hfile'⟩ := h' f htarget
  exact ⟨htarget', hfile'.trans hfile⟩

/-- A target that a call has made is complete. -/
def Sound (documents : ι → Option Json) (s : StoreFiles ι) : Prop :=
  ∀ j, s.target = some (.call j) → ∃ document, documents j = some document ∧
    s.files (.call j) = ⟨canonical_bytes document, 0o444⟩

/-- A step after which the target and its file are the same. -/
theorem Sound.same {documents : ι → Option Json} {s s' : StoreFiles ι} (hs : Sound documents s)
    (htarget : s'.target = s.target) (hfiles : ∀ f, s.target = some f → s'.files f = s.files f) :
    Sound documents s' := by
  intro j hj
  rw [htarget] at hj
  rw [hfiles _ hj]
  exact hs j hj

/-- A thread of the call `i`. -/
abbrev Obeys {α : Type} (documents : ι → Option Json) (i : ι) (P : StoreFiles ι → Prop)
    (p : DocumentProg ι α) (Q : α → StoreFiles ι → Prop) (E : StoreFailure → StoreFiles ι → Prop) :
    Prop :=
  Prog.Does (fun l s => System.AnyStep l s ∧ Sound documents s) (Others i)
    (fun _ s s' => Sound documents s' ∧ Mine i s s') P p Q E

variable {documents : ι → Option Json} {i : ι} {env : Surroundings} {store : DocumentStore}
  {runtime : Runtime} {again : Bool}

abbrev Steady (i : ι) (P : StoreFiles ι → Prop) : Prop := Prog.Stable (Others i) P

theorem steady_fact {fact : Prop} : Steady i fun _ => fact := fun _ _ _ h => h

theorem steady_held : Steady i (Held i) := fun _ _ hothers h => hothers.lock.mp h

/-! ## One step -/

section Steps

variable {α : Type} {op : Operation} {P : StoreFiles ι → Prop} {Q : α → StoreFiles ι → Prop}
  {E : StoreFailure → StoreFiles ι → Prop}

/-- A step that may fail by itself. -/
theorem obeys_perform {f : StoreFiles ι → Except StoreFailure α × StoreFiles ι} (hP : Steady i P)
    (hQ : ∀ a, Steady i (Q a)) (hE : ∀ e, Steady i (E e))
    (hfault : ∀ s message, P s → E (.node .other message) s)
    (h : ∀ s, P s → Sound documents s →
      Sound documents (f s).2 ∧ Mine i s (f s).2 ∧ Prog.ends Q E (f s).1 (f s).2) :
    Obeys documents i P (env.perform op f) Q E := by
  apply Prog.does_atomic hP hQ hE
  rintro s hp ⟨-, hs⟩
  cases env.fault op with
  | some message => exact ⟨⟨hs, .refl i s⟩, hfault s message hp⟩
  | none =>
    obtain ⟨hsound, hmine, hend⟩ := h s hp hs
    exact ⟨⟨hsound, hmine⟩, hend⟩

/-- A step that only looks. -/
theorem obeys_look {f : StoreFiles ι → Except StoreFailure α} (hP : Steady i P)
    (hQ : ∀ a, Steady i (Q a)) (hE : ∀ e, Steady i (E e))
    (hfault : ∀ s message, P s → E (.node .other message) s)
    (h : ∀ s, P s → Prog.ends Q E (f s) s) : Obeys documents i P (env.look op f) Q E :=
  obeys_perform hP hQ hE hfault fun s hp hs => ⟨hs, .refl i s, h s hp⟩

/-- A step that the files do not know of. -/
theorem obeys_ask (hP : Steady i P) :
    Obeys documents i P (env.ask op) (fun _ => P) fun _ => P :=
  obeys_look hP (fun _ => hP) (fun _ => hP) (fun _ _ hp => hp) fun _ hp => hp

/-- A check. -/
theorem obeys_check {x : Except StoreFailure α} (hP : Steady i P) (hok : ∀ s a, P s → x = .ok a → Q a s)
    (herror : ∀ s e, P s → x = .error e → E e s) : Obeys documents i P (Prog.lift x) Q E := by
  apply Prog.does_lift hP
  intro s hp
  cases hx : x with
  | ok a => exact hok s a hp hx
  | error e => exact herror s e hp hx

end Steps

/-! ## Reading -/

section Reading

variable {P : StoreFiles ι → Prop}

/-- The call has seen that there is no target, if it has the lock file. -/
def Absent (i : ι) (s : StoreFiles ι) : Prop := Held i s → s.target = none

theorem steady_absent : Steady i (Absent i) := by
  intro s s' hothers h hheld
  have hheld' := hothers.lock.mpr hheld
  exact (hothers.target hheld').trans (h hheld')

/-- A fact about a target and its bytes. -/
def Target (f : Maker ι) (fact : List UInt8 → Prop) (s : StoreFiles ι) : Prop :=
  s.target = some f ∧ fact (s.files f).bytes

theorem steady_target (f : Maker ι) (fact : List UInt8 → Prop) : Steady i (Target f fact) := by
  intro s s' hothers ⟨htarget, hfact⟩
  obtain ⟨htarget', hfile⟩ := hothers.kept f htarget
  refine ⟨htarget', ?_⟩
  rw [hfile]
  exact hfact

/-- These are all the bytes of the target. -/
def Whole (bytes : List UInt8) (s : StoreFiles ι) : Prop :=
  ∃ f, Target f (fun found => found = bytes) s

theorem steady_whole (bytes : List UInt8) : Steady i (Whole bytes) := by
  rintro s s' hothers ⟨f, h⟩
  exact ⟨f, steady_target f _ s s' hothers h⟩

/-- What an error of the reading says. -/
def ReadError (i : ι) (P : StoreFiles ι → Prop) (e : StoreFailure) (s : StoreFiles ι) : Prop :=
  P s ∧ ∀ message, e = .node .ENOENT message → Absent i s

theorem steady_read_error (hP : Steady i P) (e : StoreFailure) : Steady i (ReadError i P e) := by
  intro s s' hothers ⟨hp, habsent⟩
  exact ⟨hP s s' hothers hp, fun message he => steady_absent s s' hothers (habsent message he)⟩

theorem read_error_other {s : StoreFiles ι} {code : NodeCode} {message : JsString} (hp : P s)
    (hcode : code ≠ .ENOENT) : ReadError i P (.node code message) s := by
  refine ⟨hp, fun message' he => ?_⟩
  exact absurd (StoreFailure.node.inj he).1 hcode

theorem read_error_absent {s : StoreFiles ι} {e : StoreFailure} (hp : P s) (h : s.target = none) :
    ReadError i P e s := ⟨hp, fun _ _ _ => h⟩

/-- A step of the reading. -/
theorem obeys_read {α : Type} {op : Operation} {f : StoreFiles ι → Except StoreFailure α}
    {P' : StoreFiles ι → Prop} {Q : α → StoreFiles ι → Prop} (hP : Steady i P) (hP' : Steady i P')
    (himp : ∀ s, P' s → P s) (hQ : ∀ a, Steady i (Q a))
    (h : ∀ s, P' s → Prog.ends Q (ReadError i P) (f s) s) :
    Obeys documents i P' (env.look op f) Q (ReadError i P) :=
  obeys_look hP' hQ (steady_read_error hP)
    (fun s _ hp' => read_error_other (himp s hp') (by decide)) h

/-- The loop reads the front of the file, and all of it if it is not too long. -/
theorem obeys_read_loop (hP : Steady i P) (f : Maker ι) (fuel : ℕ) (total : List UInt8)
    (hfuel : document_limit < fuel + total.length) :
    Obeys documents i (fun s => P s ∧ Target f (fun found => total <+: found) s)
      (read_loop env again f fuel total)
      (fun result s => P s ∧ Target f
        (fun found => result.length ≤ document_limit → found = result) s) (ReadError i P) := by
  have hfront (part : List UInt8) :=
    hP.and (steady_target (i := i) f fun found => part <+: found)
  induction fuel generalizing total with
  | zero =>
    refine Prog.does_pure (hfront total) fun s hs => ⟨hs.1, hs.2.1, ?_⟩
    intro hle
    omega
  | succ fuel ih =>
    unfold read_loop
    by_cases hlong : document_limit < total.length
    · rw [if_pos hlong]
      refine Prog.does_pure (hfront total) fun s hs => ⟨hs.1, hs.2.1, ?_⟩
      intro hle
      omega
    rw [if_neg hlong]
    have hpart : Obeys documents i (fun s => P s ∧ Target f (fun found => total <+: found) s)
        (read_part env again f total.length (min chunk_size (document_limit + 1 - total.length)))
        (fun part s => P s ∧ Target f
          (fun found => total ++ part <+: found ∧ (part = [] → found = total)) s) (ReadError i P) := by
      apply obeys_read hP (hfront total) (fun _ hs => hs.1) fun part => hP.and (steady_target f _)
      rintro s ⟨hp, htarget, hfront'⟩
      obtain ⟨rest, hrest⟩ := hfront'
      refine ⟨hp, htarget, ?_⟩
      rw [← hrest, List.drop_left]
      refine ⟨?_, ?_⟩
      · exact (List.prefix_append_right_inj _).mpr (List.take_prefix _ _)
      · intro hnil
        have hrest' : rest = [] := by
          by_contra hne
          have hlength := congrArg List.length hnil
          rw [List.length_take, List.length_nil] at hlength
          have := List.length_pos_of_ne_nil hne
          omega
        rw [hrest', List.append_nil]
    apply hpart.bind
    intro part
    by_cases hnil : part = []
    · rw [if_pos hnil]
      refine Prog.does_pure (hP.and (steady_target f _)) fun s hs => ⟨hs.1, hs.2.1, fun _ => ?_⟩
      exact hs.2.2.2 hnil
    · rw [if_neg hnil]
      have hlength := List.length_pos_of_ne_nil hnil
      refine (ih (total ++ part) (by rw [List.length_append]; omega)).weaken ?_ (fun _ _ h => h)
        fun _ _ h => h
      exact fun s hs => ⟨hs.1, hs.2.1, hs.2.2.1⟩

/-- **Reading** returns the whole target. -/
theorem obeys_read_stable_text (hP : Steady i P) :
    Obeys documents i P (read_stable_text store env again) (fun bytes s => P s ∧ Whole bytes s)
      (ReadError i P) := by
  have hopened (f : Maker ι) := hP.and (steady_target (i := i) f fun _ => True)
  have htotal (f : Maker ι) (total : List UInt8) := hP.and (steady_target (i := i) f fun found =>
    total.length ≤ document_limit → found = total)
  have hwhole (bytes : List UInt8) := hP.and (steady_whole (i := i) bytes)
  unfold read_stable_text
  have hresolve : Obeys documents i P (env.look (.resolve again) fun s =>
      if s.target.isSome then .ok () else no_entry) (fun _ => P) (ReadError i P) := by
    apply obeys_read hP hP (fun _ hp => hp) fun _ => hP
    intro s hp
    by_cases htarget : s.target.isSome
    · rw [if_pos htarget]
      exact hp
    · rw [if_neg htarget]
      exact read_error_absent hp (by simpa using htarget)
  apply hresolve.bind
  intro _
  apply Prog.Does.bind (M := fun f s => P s ∧ Target f (fun _ => True) s)
  · apply obeys_read hP hP (fun _ hp => hp) hopened
    intro s hp
    cases htarget : s.target with
    | none => exact read_error_absent hp htarget
    | some f => exact ⟨hp, htarget, trivial⟩
  intro f
  apply Prog.Does.bind (M := fun _ s => P s ∧ Target f (fun _ => True) s)
  · exact obeys_read hP (hopened f) (fun _ h => h.1) (fun _ => hopened f) fun _ h => h
  intro size
  apply (obeys_check (Q := fun _ s => P s ∧ Target f (fun _ => True) s) (hopened f)
    (fun _ _ h _ => h) ?_).bind
  · intro _
    have hloop : Obeys documents i _ (read_loop env again f _ []) _ _ :=
      obeys_read_loop hP f (document_limit + 2) [] (by rw [List.length_nil]; omega)
    apply (hloop.weaken (fun s h => ⟨h.1, h.2.1, List.nil_prefix⟩) (fun _ _ h => h)
      fun _ _ h => h).bind
    · intro total
      apply (obeys_check (Q := fun _ s => P s ∧ Whole total s) (htotal f total) ?_ ?_).bind
      · intro _
        apply Prog.Does.bind (M := fun _ s => P s ∧ Whole total s)
        · exact obeys_read hP (hwhole total) (fun _ h => h.1) (fun _ => hwhole total) fun _ h => h
        · intro _
          exact Prog.does_pure (hwhole total) fun _ h => h
      · rintro s a ⟨hp, htarget, hfact⟩ hensure
        exact ⟨hp, f, htarget, hfact a.down⟩
      · intro s e h herror
        obtain ⟨-, rfl⟩ := ensure_eq_error.mp herror
        exact read_error_other h.1 (by decide)
  · intro s e h herror
    obtain ⟨-, rfl⟩ := ensure_eq_error.mp herror
    exact read_error_other h.1 (by decide)

/-- Bytes are never decoded to a missing document. -/
theorem decode_ne_missing {path : JsString} (bytes : List UInt8) :
    store.decode runtime bytes ≠ .ok (.missing path) := by
  unfold DocumentStore.decode
  split
  · simp
  · split
    · simp
    · split <;> simp

/-- What a load has returned: that there is no target, what the whole target is decoded to, or
that it could not be read. -/
def Loaded (store : DocumentStore) (runtime : Runtime) (i : ι) (result : LoadedDocument)
    (s : StoreFiles ι) : Prop :=
  result = .missing store.target ∧ Absent i s ∨
    (∃ f, Target f (fun found => store.decode runtime found = .ok result) s) ∨
      ∃ message, result = .invalid store.target message none

theorem steady_loaded (result : LoadedDocument) : Steady i (Loaded store runtime i result) := by
  intro s s' hothers h
  obtain ⟨hresult, habsent⟩ | ⟨f, htarget⟩ | hfailed := h
  · exact .inl ⟨hresult, steady_absent s s' hothers habsent⟩
  · exact .inr (.inl ⟨f, steady_target f _ s s' hothers htarget⟩)
  · exact .inr (.inr hfailed)

/-- **A load** never returns a part of a document. -/
theorem obeys_load_document (hP : Steady i P) :
    Obeys documents i P (load_document store runtime env again)
      (fun result s => P s ∧ Loaded store runtime i result s) fun _ => P := by
  unfold load_document
  apply (Prog.does_attempt (obeys_read_stable_text hP)).bind
  intro outcome
  cases outcome with
  | ok bytes =>
    apply obeys_check (hP.and (steady_whole bytes))
    · rintro s result ⟨hp, f, htarget, hbytes⟩ hdecode
      refine ⟨hp, .inr (.inl ⟨f, htarget, ?_⟩)⟩
      dsimp only at hbytes ⊢
      rw [hbytes]
      exact hdecode
    · exact fun _ _ h _ => h.1
  | error e =>
    have herror := steady_read_error hP (i := i) e
    cases e with
    | store code message =>
      exact Prog.does_pure herror fun s h => ⟨h.1, .inr (.inr ⟨_, rfl⟩)⟩
    | node code message =>
      cases code with
      | ENOENT => exact Prog.does_pure herror fun s h => ⟨h.1, .inl ⟨rfl, h.2 _ rfl⟩⟩
      | EEXIST => exact Prog.does_pure herror fun s h => ⟨h.1, .inr (.inr ⟨_, rfl⟩)⟩
      | other => exact Prog.does_pure herror fun s h => ⟨h.1, .inr (.inr ⟨_, rfl⟩)⟩

end Reading

/-! ## Publishing -/

section Publishing

variable {document : Json}

/-- The own file on its way: nobody has a target, and the temporary name is the file's or
nothing's. -/
structure Staging (i : ι) (name : JsString) (file : StoredBytes) (s : StoreFiles ι) : Prop where
  held : Held i s
  target : s.target = none
  file : s.files (.call i) = file
  temporary : s.temporary name = some (.call i) ∨ s.temporary name = none

theorem steady_staging (name : JsString) (file : StoredBytes) : Steady i (Staging i name file) := by
  intro s s' hothers h
  refine ⟨hothers.lock.mp h.held, (hothers.target h.held).trans h.target,
    hothers.file.trans h.file, ?_⟩
  obtain hsame | hnone := hothers.temporary h.held name
  · rw [hsame]
    exact h.temporary
  · exact .inr hnone

/-- The own document is the target. -/
structure Published (i : ι) (document : Json) (s : StoreFiles ι) : Prop where
  held : Held i s
  target : s.target = some (.call i)
  file : s.files (.call i) = ⟨canonical_bytes document, 0o444⟩

theorem steady_published : Steady i (Published i document) := by
  intro s s' hothers h
  exact ⟨hothers.lock.mp h.held, (hothers.kept _ h.target).1, hothers.file.trans h.file⟩

/-- Steps on the own file, as long as there is no target. -/
theorem mine_of_staging {s s' : StoreFiles ι} (hheld : Held i s) (hnone : s.target = none)
    (hlock : s'.lock = s.lock) (htarget : s'.target = s.target)
    (hfiles : ∀ f, f ≠ .call i → s'.files f = s.files f) (hs : Sound documents s) :
    Sound documents s' ∧ Mine i s s' := by
  have hkept : ∀ f, s.target = some f → s'.files f = s.files f :=
    fun f hf => absurd (hf.symm.trans hnone) (by simp)
  exact ⟨hs.same htarget hkept, .inl hlock, .inl htarget, hfiles, hkept, fun _ => .inr (.inr hheld)⟩

variable [DecidableEq ι]

theorem obeys_open_temporary :
    Obeys documents i (fun s => Held i s ∧ s.target = none) (open_temporary env i)
      (fun _ => Staging i env.temporary ⟨[], 0o600⟩) fun _ => Held i := by
  have hsteady : Steady i fun s => Held i s ∧ s.target = none := by
    intro s s' hothers h
    exact ⟨hothers.lock.mp h.1, (hothers.target h.1).trans h.2⟩
  apply obeys_perform hsteady (fun _ => steady_staging _ _) (fun _ => steady_held) fun _ _ h => h.1
  intro s h hs
  by_cases htemporary : (s.temporary env.temporary).isSome
  · rw [if_pos htemporary]
    exact ⟨hs, .refl i s, h.1⟩
  · rw [if_neg htemporary]
    have hstep : Sound documents
        ((s.name env.temporary (some (.call i))).put (.call i) ⟨[], 0o600⟩) ∧ Mine i s _ :=
      mine_of_staging h.1 h.2 rfl rfl (fun f hf => Function.update_of_ne hf _ _) hs
    obtain ⟨hsound, hmine⟩ := hstep
    exact ⟨hsound, hmine, h.1, h.2, Function.update_self _ _ _, .inl (Function.update_self _ _ _)⟩

/-- A step that changes the own file. -/
theorem obeys_change {op : Operation} {file : StoredBytes} (change : StoredBytes → StoredBytes) :
    Obeys documents i (Staging i env.temporary file)
      (env.perform op fun s => (.ok (), s.put (.call i) (change (s.files (.call i)))))
      (fun _ => Staging i env.temporary (change file)) fun _ => Held i := by
  apply obeys_perform (steady_staging _ _) (fun _ => steady_staging _ _) (fun _ => steady_held)
    fun _ _ h => h.held
  intro s h hs
  have hstep : Sound documents (s.put (.call i) (change (s.files (.call i)))) ∧ Mine i s _ :=
    mine_of_staging h.held h.target rfl rfl (fun f hf => Function.update_of_ne hf _ _) hs
  obtain ⟨hsound, hmine⟩ := hstep
  refine ⟨hsound, hmine, h.held, h.target, ?_, h.temporary⟩
  rw [← h.file]
  exact Function.update_self _ _ _

theorem flatten_pieces (cuts : List ℕ) (bytes : List UInt8) :
    (pieces cuts bytes).flatten = bytes := by
  induction cuts generalizing bytes with
  | nil => simp [pieces]
  | cons cut cuts ih =>
    rw [pieces, List.flatten_cons, ih, List.take_append_drop]

/-- However the bytes are cut, all of them are written. -/
theorem obeys_write_pieces (parts : List (List UInt8)) (bytes : List UInt8) :
    Obeys documents i (Staging i env.temporary ⟨bytes, 0o600⟩)
      (Prog.for_each (write_piece env i) parts)
      (fun _ => Staging i env.temporary ⟨bytes ++ parts.flatten, 0o600⟩) fun _ => Held i := by
  induction parts generalizing bytes with
  | nil =>
    rw [List.flatten_nil, List.append_nil]
    exact Prog.does_pure (steady_staging _ _) fun _ h => h
  | cons part parts ih =>
    rw [List.flatten_cons, ← List.append_assoc]
    exact (obeys_change fun file => { file with bytes := file.bytes ++ part }).bind fun _ => ih _

omit [DecidableEq ι] in
/-- A step that the files do not know of, while the own file is on its way. -/
theorem obeys_staging_ask {op : Operation} {file : StoredBytes} :
    Obeys documents i (Staging i env.temporary file) (env.ask op)
      (fun _ => Staging i env.temporary file) fun _ => Held i :=
  obeys_look (steady_staging _ _) (fun _ => steady_staging _ _) (fun _ => steady_held)
    (fun _ _ h => h.held) fun _ h => h

theorem obeys_stage :
    Obeys documents i (fun s => Held i s ∧ s.target = none) (stage env i document)
      (fun _ => Staging i env.temporary ⟨canonical_bytes document, 0o444⟩) fun _ => Held i := by
  unfold stage
  apply obeys_open_temporary.bind
  intro _
  have hwrite : Obeys documents i _ (Prog.for_each (write_piece env i) _) _ _ :=
    obeys_write_pieces (pieces env.cuts (canonical_bytes document)) []
  rw [flatten_pieces, List.nil_append] at hwrite
  apply hwrite.bind
  intro _
  apply obeys_staging_ask.bind
  intro _
  apply (obeys_change fun file => { file with mode := 0o444 }).bind
  intro _
  apply obeys_staging_ask.bind
  intro _
  exact obeys_staging_ask

omit [DecidableEq ι] in
/-- The rename gives the target to the own document, or fails. -/
theorem obeys_rename_temporary (hdocument : documents i = some document) :
    Obeys documents i (Staging i env.temporary ⟨canonical_bytes document, 0o444⟩)
      (rename_temporary env) (fun _ => Published i document) fun _ => Held i := by
  apply obeys_perform (steady_staging _ _) (fun _ => steady_published) (fun _ => steady_held)
    fun _ _ h => h.held
  intro s h hs
  obtain htemporary | htemporary := h.temporary
  · rw [htemporary]
    refine ⟨?_, ⟨.inl rfl, .inr ⟨h.held, h.target, rfl⟩, fun _ _ => rfl, fun _ _ => rfl, ?_⟩, ?_⟩
    · intro j hj
      have hji : i = j := Maker.call.inj (Option.some.inj hj)
      rw [← hji]
      exact ⟨document, hdocument, h.file⟩
    · exact fun _ => .inr (.inr h.held)
    · exact ⟨h.held, rfl, h.file⟩
  · rw [htemporary]
    exact ⟨hs, .refl i s, h.held⟩

/-- What a call has returned: a document that the target holds, and that is the own one but
for its timestamps; the own one itself if it says so. -/
def Returned (store : DocumentStore) (runtime : Runtime) (i : ι) (document : Json)
    (stored : StoredDocument) (s : StoreFiles ι) : Prop :=
  ∃ f, Target f (fun found => store.decode runtime found =
      .ok (.valid stored.path stored.sha256 stored.document)) s ∧
    store.same stored.document document = true ∧
    (stored.status = .stored → f = .call i ∧ stored.document = document)

omit [DecidableEq ι] in
theorem steady_returned (stored : StoredDocument) :
    Steady i (Returned store runtime i document stored) := by
  rintro s s' hothers ⟨f, htarget, hsame, hstored⟩
  exact ⟨f, steady_target f _ s s' hothers htarget, hsame, hstored⟩

/-- What comes out of the body under the lock. -/
def Outcome (store : DocumentStore) (runtime : Runtime) (i : ι) (document : Json)
    (result : Option StoredDocument) (s : StoreFiles ι) : Prop :=
  match result with
  | none => Published i document s
  | some stored => Held i s ∧ Returned store runtime i document stored s

omit [DecidableEq ι] in
theorem steady_outcome (result : Option StoredDocument) :
    Steady i (Outcome store runtime i document result) := by
  cases result with
  | none => exact steady_published
  | some stored => exact steady_held.and (steady_returned stored)

theorem obeys_look_or_publish (hdocument : documents i = some document) :
    Obeys documents i (Held i) (look_or_publish store runtime env i document)
      (Outcome store runtime i document) fun _ => Held i := by
  unfold look_or_publish
  apply (obeys_ask steady_held).bind
  intro _
  apply (obeys_ask steady_held).bind
  intro _
  apply (obeys_load_document steady_held).bind
  intro result
  have hresult : Steady i fun s => Held i s ∧ Loaded store runtime i result s :=
    steady_held.and (steady_loaded result)
  cases result with
  | missing path =>
    have hnone : ∀ s, Held i s ∧ Loaded store runtime i (.missing path) s →
        Held i s ∧ s.target = none := by
      rintro s ⟨hheld, ⟨-, habsent⟩ | ⟨f, htarget, hdecode⟩ | ⟨message, hfailed⟩⟩
      · exact ⟨hheld, habsent hheld⟩
      · exact absurd hdecode (decode_ne_missing _)
      · exact absurd hfailed (by simp)
    refine Prog.Does.weaken (P := fun s => Held i s ∧ s.target = none) ?_ hnone (fun _ _ h => h)
      fun _ _ h => h
    apply obeys_stage.bind
    intro _
    apply (obeys_rename_temporary hdocument).bind
    intro _
    exact Prog.does_pure steady_published fun _ h => h
  | invalid path message sha256 => exact Prog.does_fail hresult fun _ h => h.1
  | valid path sha256 existing =>
    dsimp only
    by_cases hsame : store.same existing document = true
    · rw [if_pos hsame]
      refine Prog.does_pure hresult fun s h => ⟨h.1, ?_⟩
      obtain ⟨hmissing, -⟩ | ⟨f, htarget, hdecode⟩ | ⟨message, hfailed⟩ := h.2
      · exact absurd hmissing (by simp)
      · exact ⟨f, ⟨htarget, hdecode⟩, hsame, fun hstatus => absurd hstatus (by simp)⟩
      · exact absurd hfailed (by simp)
    · rw [if_neg hsame]
      exact Prog.does_fail hresult fun _ h => h.1

omit [DecidableEq ι] in
theorem obeys_verify_published :
    Obeys documents i (Published i document) (verify_published store runtime env document)
      (fun stored s => Held i s ∧ Returned store runtime i document stored s) fun _ => Held i := by
  have hend (stored : StoredDocument) :
      Steady i fun s => Held i s ∧ Returned store runtime i document stored s :=
    steady_held.and (steady_returned stored)
  unfold verify_published
  apply Prog.Does.bind (M := fun _ => Published i document)
  · exact obeys_look steady_published (fun _ => steady_published) (fun _ => steady_held)
      (fun _ _ h => h.held) fun _ h => h
  intro _
  apply ((obeys_load_document steady_published).weaken (fun _ h => h) (fun _ _ h => h)
    fun _ _ h => h.held).bind
  intro result
  have hresult : Steady i fun s => Published i document s ∧ Loaded store runtime i result s :=
    steady_published.and (steady_loaded result)
  cases result with
  | missing path => exact Prog.does_fail hresult fun _ h => h.1.held
  | invalid path message sha256 => exact Prog.does_fail hresult fun _ h => h.1.held
  | valid path sha256 verified =>
    dsimp only
    by_cases hverified : sha256 = hash_bytes (canonical_bytes document) ∧
      compact verified = compact document
    · rw [if_pos hverified]
      have hdocument : verified = document := compact_injective hverified.2
      have hreturned : ∀ s, Published i document s ∧
          Loaded store runtime i (.valid path sha256 verified) s →
            Held i s ∧ Returned store runtime i document ⟨.stored, path, sha256, verified⟩ s := by
        rintro s ⟨hpublished, ⟨hmissing, -⟩ | ⟨f, htarget, hdecode⟩ | ⟨message, hfailed⟩⟩
        · exact absurd hmissing (by simp)
        · have hf : f = .call i := Option.some.inj (htarget.symm.trans hpublished.target)
          refine ⟨hpublished.held, f, ⟨htarget, hdecode⟩, ?_, fun _ => ⟨hf, hdocument⟩⟩
          rw [hdocument]
          exact decide_eq_true rfl
        · exact absurd hfailed (by simp)
      refine Prog.Does.weaken ?_ hreturned (fun _ _ h => h) fun _ _ h => h
      apply Prog.Does.bind (M := fun _ s =>
        Held i s ∧ Returned store runtime i document ⟨.stored, path, sha256, verified⟩ s)
      · apply obeys_look (hend _) (fun _ => hend _) (fun _ => steady_held) fun _ _ h => h.1
        intro s h
        cases htarget : s.target with
        | none => exact h.1
        | some f => exact h
      intro mode
      apply (obeys_check (hend _) (fun _ _ h _ => h) fun _ _ h _ => h.1).bind
      intro _
      exact Prog.does_pure (hend _) fun _ h => h
    · rw [if_neg hverified]
      exact Prog.does_fail hresult fun _ h => h.1.held

/-- What is known behind the body. -/
def Settled (store : DocumentStore) (runtime : Runtime) (i : ι) (document : Json)
    (result : Except StoreFailure StoredDocument) (s : StoreFiles ι) : Prop :=
  ∀ stored, result = .ok stored → Returned store runtime i document stored s

omit [DecidableEq ι] in
theorem steady_settled (result : Except StoreFailure StoredDocument) :
    Steady i (Settled store runtime i document result) :=
  fun s s' hothers h stored hstored => steady_returned stored s s' hothers (h stored hstored)

theorem obeys_locked {E : StoreFailure → StoreFiles ι → Prop} (hdocument : documents i = some document) :
    Obeys documents i (Held i) (locked store runtime env i document)
      (fun outcome s => Held i s ∧ Settled store runtime i document outcome.2 s) E := by
  unfold locked
  apply (Prog.does_attempt (obeys_look_or_publish hdocument)).bind
  intro first
  match first with
  | .error e =>
    exact Prog.does_pure steady_held fun s h => ⟨h, fun _ hstored => absurd hstored (by simp)⟩
  | .ok (some existing) =>
    refine Prog.does_pure (steady_outcome (some existing)) fun s h => ⟨h.1, ?_⟩
    intro stored hstored
    rw [← Except.ok.inj hstored]
    exact h.2
  | .ok none =>
    apply (Prog.does_attempt obeys_verify_published).bind
    intro verified
    cases verified with
    | error e =>
      exact Prog.does_pure steady_held fun s h => ⟨h, fun _ hstored => absurd hstored (by simp)⟩
    | ok stored =>
      refine Prog.does_pure (steady_held.and (steady_returned stored)) fun s h => ⟨h.1, ?_⟩
      intro stored' hstored
      rw [← Except.ok.inj hstored]
      exact h.2

omit [DecidableEq ι] in
/-- A step that leaves the lock file, the target and the files. -/
theorem obeys_tidy {α : Type} {op : Operation} {P : StoreFiles ι → Prop}
    {f : StoreFiles ι → Except StoreFailure α × StoreFiles ι} (hP : Steady i P)
    (hf : ∀ s, (f s).2.lock = s.lock ∧ (f s).2.target = s.target ∧ (f s).2.files = s.files ∧
      ∀ name, (f s).2.temporary name = s.temporary name ∨ (f s).2.temporary name = none)
    (hkeep : ∀ s, P s → P (f s).2) :
    Obeys documents i P (env.perform op f) (fun _ => P) fun _ => P := by
  apply obeys_perform hP (fun _ => hP) (fun _ => hP) fun _ _ h => h
  intro s hp hs
  obtain ⟨hlock, htarget, hfiles, htemporary⟩ := hf s
  refine ⟨hs.same htarget fun f _ => by rw [hfiles], ⟨.inl hlock, .inl htarget,
    fun f _ => by rw [hfiles], fun f _ => by rw [hfiles], fun name => ?_⟩, ?_⟩
  · obtain hsame | hnone := htemporary name
    · exact .inl hsame
    · exact .inr (.inl hnone)
  · have hp' := hkeep s hp
    cases (f s).1 <;> exact hp'

omit [DecidableEq ι] in
theorem obeys_ignored {p : DocumentProg ι Unit} {P Q : StoreFiles ι → Prop}
    {E : StoreFailure → StoreFiles ι → Prop} (hQ : Steady i Q)
    (h : Obeys documents i P p (fun _ => Q) fun _ => Q) :
    Obeys documents i P (ignored p) (fun _ => Q) E := by
  unfold ignored
  apply (Prog.does_attempt h).bind
  intro outcome
  refine Prog.does_pure (P := Q) hQ (fun _ h => h) |>.weaken ?_ (fun _ _ h => h) fun _ _ h => h
  intro s hs
  cases outcome <;> exact hs

omit [DecidableEq ι] in
/-- The temporary name is removed where nothing depends on it. -/
theorem obeys_discard_temporary {P : StoreFiles ι → Prop} {E : StoreFailure → StoreFiles ι → Prop}
    (hP : Steady i P) (hkeep : ∀ s, P s → P (s.name env.temporary none)) (published : Bool) :
    Obeys documents i P (discard_temporary env published) (fun _ => P) E := by
  unfold discard_temporary
  cases published with
  | true => exact Prog.does_pure hP fun _ h => h
  | false =>
    apply obeys_ignored hP
    apply obeys_tidy hP
    · intro s
      by_cases htemporary : (s.temporary env.temporary).isSome
      · rw [if_pos htemporary]
        refine ⟨rfl, rfl, rfl, fun name => ?_⟩
        by_cases hname : name = env.temporary
        · rw [hname]
          exact .inr (Function.update_self _ _ _)
        · exact .inl (Function.update_of_ne hname _ _)
      · rw [if_neg htemporary]
        exact ⟨rfl, rfl, rfl, fun _ => .inl rfl⟩
    · intro s hp
      by_cases htemporary : (s.temporary env.temporary).isSome
      · rw [if_pos htemporary]
        exact hkeep s hp
      · rw [if_neg htemporary]
        exact hp

omit [DecidableEq ι] in
/-- The lock file is removed by the call that has it. -/
theorem obeys_unlink_lock {P : StoreFiles ι → Prop} {E : StoreFailure → StoreFiles ι → Prop}
    (hP : Steady i P) (hkeep : ∀ s, P s → P { s with lock := none }) :
    Obeys documents i (fun s => Held i s ∧ P s) (ignored (unlink_lock env)) (fun _ => P) E := by
  apply obeys_ignored hP
  apply obeys_perform (steady_held.and hP) (fun _ => hP) (fun _ => hP) fun _ _ h => h.2
  rintro s ⟨hheld, hp⟩ hs
  have hlock : s.lock.isSome := by
    rw [show s.lock = some (.call i) from hheld]
    rfl
  rw [if_pos hlock]
  exact ⟨hs.same rfl fun _ _ => rfl, ⟨.inr (.inr ⟨hheld, rfl⟩), .inl rfl, fun _ _ => rfl,
    fun _ _ => rfl, fun _ => .inl rfl⟩, hkeep s hp⟩

omit [DecidableEq ι] in
/-- The lock file is taken where there is none. -/
theorem obeys_open_lock :
    Obeys documents i (fun _ => True) (open_lock store env i) (fun _ => Held i) fun _ _ => True := by
  apply obeys_perform steady_fact (fun _ => steady_held) (fun _ => steady_fact) fun _ _ _ => trivial
  intro s _ hs
  by_cases hdirectory : s.directory = false
  · rw [if_pos hdirectory]
    exact ⟨hs, .refl i s, trivial⟩
  rw [if_neg hdirectory]
  by_cases hlock : s.lock.isSome
  · rw [if_pos hlock]
    exact ⟨hs, .refl i s, trivial⟩
  · rw [if_neg hlock]
    refine ⟨hs.same rfl fun _ _ => rfl, ⟨.inr (.inl ⟨by simpa using hlock, rfl⟩), .inl rfl,
      fun _ _ => rfl, fun _ _ => rfl, fun _ => .inl rfl⟩, rfl⟩

omit [DecidableEq ι] in
theorem obeys_prepare_directory :
    Obeys documents i (fun _ => True) (prepare_directory env) (fun _ _ => True)
      fun _ _ => True := by
  have hask (op : Operation) : Obeys documents i (fun _ => True) (env.ask op) (fun _ _ => True)
      fun _ _ => True := obeys_ask steady_fact
  unfold prepare_directory
  apply Prog.Does.bind (M := fun _ _ => True)
  · exact obeys_tidy steady_fact (fun _ => ⟨rfl, rfl, rfl, fun _ => .inl rfl⟩) fun _ h => h
  intro created
  apply (hask _).bind
  intro _
  unfold sync_created
  cases created with
  | true => exact hask _
  | false => exact Prog.does_pure steady_fact fun _ h => h

/-- **A storing call** returns what `Returned` says. -/
theorem obeys_store_document (hdocument : documents i = some document) :
    Obeys documents i (fun _ => True) (store_document store runtime env i document)
      (Returned store runtime i document) fun _ _ => True := by
  unfold store_document
  apply obeys_prepare_directory.bind
  intro _
  apply (Prog.does_attempt obeys_open_lock).bind
  intro outcome
  cases outcome with
  | error e =>
    apply (obeys_discard_temporary (P := fun _ => True) steady_fact (fun _ h => h) false).bind
    intro _
    exact obeys_check steady_fact (fun _ _ _ h => absurd h (by simp)) fun _ _ _ _ => trivial
  | ok _ =>
    apply (obeys_locked hdocument).bind
    intro outcome
    apply (obeys_discard_temporary (steady_held.and (steady_settled outcome.2))
      (fun _ h => h) outcome.1).bind
    intro _
    apply (obeys_unlink_lock (steady_settled outcome.2) fun _ h => h).bind
    intro _
    apply obeys_check (steady_settled outcome.2)
    · intro s stored h hstored
      exact h stored (mapError_eq_ok.mp hstored)
    · exact fun _ _ _ _ => trivial

end Publishing

end LeanBun.Documents
