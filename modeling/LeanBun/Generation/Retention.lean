/-
What the retained record keeps.

A generation is published before its references are retained, so between two steps
of a publication the retained record lags behind. The project lock covers the gap:
it is held by the transaction whose references are missing, and the recovery that
frees it has retained them. No step takes a reference out of the record.
-/
import LeanBun.Generation.Binding
import LeanBun.Generation.Ownership

set_option autoImplicit false

namespace LeanBun.Generation

open LeanBun.Lib LeanBun.Core LeanBun.Store

/-! ## The references on disk -/

/-- The retained record is the text of a list of references, and `reference` is one
of them. -/
def Kept (s : ProjectState) (reference : Reference) : Prop :=
  ∃ pairs, s.retained = some (retained_bytes pairs) ∧ reference ∈ pairs

/-- A step after which everything is still retained. -/
def keeps (s s' : ProjectState) : Prop := ∀ reference, Kept s reference → Kept s' reference

variable {manager : LeanGenerationManagerV1} {s s' : ProjectState} {g : LeanBunGenerationV1}
  {involved : List LeanBunGenerationV1}

theorem reference_line_injective : Function.Injective reference_line := by
  intro a b h
  have hfields := congrArg (split '\t') h
  rw [reference_line_fields, reference_line_fields] at hfields
  simp only [List.cons.injEq, true_and, and_true] at hfields
  have hparse : ∀ {d d' : Sha256}, d.to_string = d'.to_string → d = d' := by
    intro d d' hd
    have hparsed := congrArg Sha256.parse hd
    rw [Sha256.parse_to_string, Sha256.parse_to_string] at hparsed
    exact Option.some.inj hparsed
  exact Prod.ext (hparse hfields.1) (hparse hfields.2)

/-- The text determines the references. -/
theorem retained_bytes_injective : Function.Injective retained_bytes := by
  intro a b h
  have hlines := congrArg lines h
  rw [retained_lines, retained_lines, List.append_assoc, List.append_assoc] at hlines
  have hlength := congrArg List.length hlines
  simp only [List.length_append, List.length_cons, List.length_map, List.length_nil] at hlength
  have hbody := (List.append_inj hlines rfl).2
  have hmap := (List.append_inj hbody (by rw [List.length_map, List.length_map]; omega)).1
  exact (List.map_injective_iff.mpr reference_line_injective) hmap

theorem mem_retain {pairs : List Reference} {x : Reference} :
    x ∈ retain pairs g ↔ x ∈ pairs ∨ x ∈ references g := by
  unfold retain
  generalize references g = added
  induction added generalizing pairs with
  | nil => simp
  | cons reference added ih =>
    rw [List.foldl_cons, ih, mem_insert_reference, List.mem_cons]
    tauto

/-- What is read of the retained record is what it keeps. -/
theorem read_retained_kept {pairs : List Reference} (h : read_retained s = .ok pairs)
    {reference : Reference} (hkept : Kept s reference) : reference ∈ pairs := by
  obtain ⟨written, hretained, hmem⟩ := hkept
  unfold read_retained at h
  rw [hretained] at h
  obtain ⟨record, hrecord, h⟩ := bind_eq_ok.mp h
  cases record with
  | none => cases read_optional_none.mp hrecord
  | some read =>
    have hparse := (read_optional_some.mp hrecord).2
    rw [← Except.ok.inj h]
    show reference ∈ read
    rw [retained_bytes_injective (parse_retained_canonical hparse)]
    exact hmem

/-- **Updating.** Everything is still retained, and so are the new references. -/
theorem Retains.keeps {text : Str} (h : Retains s g text) (hretained : s'.retained = some text) :
    keeps s s' ∧ ∀ reference ∈ references g, Kept s' reference := by
  obtain ⟨pairs, hpairs, rfl⟩ := h
  constructor
  · intro reference hkept
    exact ⟨_, hretained, mem_retain.mpr (Or.inl (read_retained_kept hpairs hkept))⟩
  · intro reference hmem
    exact ⟨_, hretained, mem_retain.mpr (Or.inr hmem)⟩

theorem keeps_of_eq (h : s'.retained = s.retained) : keeps s s' := by
  rintro reference ⟨pairs, hretained, hmem⟩
  exact ⟨pairs, h.trans hretained, hmem⟩

/-! ## Step by step -/

theorem update_retained_along (s : ProjectState) : (update_retained g).Along keeps s := by
  unfold update_retained
  apply Prog.Along.read_bind (fun _ h => h)
  intro pairs hpairs
  apply Prog.Along.write_bind
  · exact (Retains.keeps ⟨pairs, hpairs, rfl⟩ rfl).1
  · exact Prog.along_read fun _ h => h

/-- **Every step.** No step of an operation takes a reference out of the retained
record. -/
theorem operation_along (operation : ManagerOperation) (s : ProjectState) :
    (operation.program manager).Along keeps s := by
  have hbind : ∀ (β γ : Type) (p : ManagerProg β) (f : β → ManagerProg γ),
      (∀ s, p.Along keeps s) → (∀ b s, (f b).Along keeps s) → ∀ s, (p >>= f).Along keeps s :=
    fun _ _ _ _ hp hf s => (hp s).bind fun b s' _ => hf b s'
  have hkeep : ∀ (text : Str) (β : Type) (p : ManagerProg β), p.Steps (unretained text) →
      ∀ s, p.Along keeps s := fun _ _ _ hp => hp.along fun _ _ _ hstep => keeps_of_eq hstep.2
  have hdrop : ∀ {β : Type} {p : ManagerProg β}, p.Along keeps s →
      (p >>= fun _ => pure ()).Along keeps s := fun hp => hp.bind fun _ _ _ => Prog.along_pure
  cases operation with
  | publish objects g fault =>
    exact hdrop (publish_composed (C := fun _ p => ∀ s, p.Along keeps s) hbind (hkeep _)
      update_retained_along rfl objects fault s)
  | recover g =>
    exact hdrop (recover_composed (C := fun _ p => ∀ s, p.Along keeps s) hbind (hkeep [])
      update_retained_along s)
  | rollback current retained => exact hkeep _ _ _ (rollback_unretained current retained) s

/-! ## Published generations -/

/-- Every run, with the generations that it is about. -/
inductive History (manager : LeanGenerationManagerV1) : List LeanBunGenerationV1 → ProjectState → Prop
  | initial : History manager [] ProjectState.initial
  | step {involved : List LeanBunGenerationV1} {s : ProjectState} (h : History manager involved s)
      (operation : ManagerOperation) (n : ℕ) :
      History manager (involved ++ operation.generations) ((operation.program manager).crash n s)

theorem History.consistent (h : History manager involved s) : Consistent manager s := by
  induction h with
  | initial => exact Consistent.initial
  | step _ operation n ih => exact consistent_step ih operation n

/-- A published transaction has its references retained, or it owns the lock. -/
def Covered (involved : List LeanBunGenerationV1) (s : ProjectState) : Prop :=
  ∀ t record, s.transactions t = some (transaction_bytes record) → record.state = .Published →
    (∃ g ∈ involved, g.identity = record.generation ∧ ∀ reference ∈ references g, Kept s reference) ∨
      ∃ owner, s.lock = some (lock_bytes owner) ∧ owner.transaction_id = t

/-- An operation on one transaction covers the others as before. -/
theorem Covered.update (hc : Covered involved s) {involved' : List LeanBunGenerationV1}
    (hsub : ∀ g ∈ involved, g ∈ involved') (hkeeps : keeps s s') (t : ExecutionId)
    (hother : ∀ t', t' ≠ t → s'.transactions t' = s.transactions t')
    (hlock : ∀ owner, s.lock = some (lock_bytes owner) → owner.transaction_id = t ∨ s'.lock = s.lock)
    (hself : ∀ record, s'.transactions t = some (transaction_bytes record) →
      record.state = .Published → (∃ g ∈ involved', g.identity = record.generation ∧
        ∀ reference ∈ references g, Kept s' reference) ∨
        ∃ owner, s'.lock = some (lock_bytes owner) ∧ owner.transaction_id = t) :
    Covered involved' s' := by
  intro t' record htext hpublished
  by_cases ht : t' = t
  · subst ht
    exact hself record htext hpublished
  · rw [hother t' ht] at htext
    rcases hc t' record htext hpublished with ⟨g, hg, hid, hall⟩ | ⟨owner, howner, hid⟩
    · exact Or.inl ⟨g, hsub g hg, hid, fun reference hr => hkeeps reference (hall reference hr)⟩
    · rcases hlock owner howner with hsame | hsame
      · exact absurd (hid.symm.trans hsame) ht
      · exact Or.inr ⟨owner, hsame.trans howner, hid⟩

theorem Covered.initial : Covered [] ProjectState.initial := fun _ _ h => by cases h

theorem covered_publish (hc : Covered involved s) (hphase : PublishPhase manager s g s') :
    Covered (involved ++ [g]) s' := by
  have hsub : ∀ g' ∈ involved, g' ∈ involved ++ [g] := fun _ h => List.mem_append_left _ h
  have hmine : g ∈ involved ++ [g] := List.mem_append_right _ List.mem_cons_self
  have hfree : ∀ {s' : ProjectState}, s.lock = none → ∀ owner, s.lock = some (lock_bytes owner) →
      owner.transaction_id = g.transaction_id ∨ s'.lock = s.lock := by
    intro _ hfree owner howner
    rw [hfree] at howner
    cases howner
  -- the transactions of the others do not change
  have hstaged : ∀ {text : Option Str} (t : ExecutionId), t ≠ g.transaction_id →
      Function.update s.transactions g.transaction_id text t = s.transactions t :=
    fun t ht => Function.update_of_ne ht ..
  cases hphase with
  | idle =>
    exact hc.update hsub (fun _ h => h) g.transaction_id (fun _ _ => rfl) (fun _ _ => Or.inr rfl)
      fun record htext hpublished => (hc _ record htext hpublished).imp_left
        fun ⟨g', hg', hrest⟩ => ⟨g', hsub g' hg', hrest⟩
  | locked _ hnone =>
    refine hc.update hsub (keeps_of_eq rfl) g.transaction_id (fun _ _ => rfl) (hfree hnone) ?_
    exact fun _ _ _ => Or.inr ⟨g, rfl, rfl⟩
  | staged _ hnone =>
    refine hc.update hsub (keeps_of_eq rfl) g.transaction_id hstaged (hfree hnone) ?_
    exact fun _ _ _ => Or.inr ⟨g, rfl, rfl⟩
  | activated _ hnone =>
    refine hc.update hsub (keeps_of_eq rfl) g.transaction_id hstaged (hfree hnone) ?_
    exact fun _ _ _ => Or.inr ⟨g, rfl, rfl⟩
  | retained _ hnone _ directory text _ _ hretains =>
    refine hc.update hsub (hretains.keeps rfl).1 g.transaction_id hstaged (hfree hnone) ?_
    exact fun _ _ _ => Or.inr ⟨g, rfl, rfl⟩
  | released _ hnone _ directory text _ _ hretains _ =>
    refine hc.update hsub (hretains.keeps rfl).1 g.transaction_id hstaged (hfree hnone) ?_
    intro record htext _
    have hself : (renamed s g .Published directory (some text) none).transactions g.transaction_id =
        some (transaction_bytes (transaction_record g .Published)) := Function.update_self ..
    rw [hself] at htext
    refine Or.inl ⟨g, hmine, ?_, (hretains.keeps rfl).2⟩
    rw [← transaction_bytes_injective (Option.some.inj htext)]
    rfl

/-- A completed publication was of the recorded generation. -/
theorem RecoversActive.generation {record : TransactionRecord} (h : RecoversActive manager s g record)
    (hs : Consistent manager s) : record.generation = g.identity := by
  obtain ⟨observed, hread, hnames⟩ := h.active
  obtain ⟨hid, hidentity, -⟩ := names_generation_transaction hnames
  rcases hs.read_active hread with ⟨-, hnone⟩ | ⟨actual, htext, hsame, hclean⟩
  · cases hnone
  · cases Option.some.inj hsame
    obtain ⟨other, hother, -, -, transaction, htransaction, hgeneration, -⟩ := hs.active _ htext
    rw [← active_bytes_injective hclean hother] at htransaction hgeneration
    rw [hid, h.transaction] at htransaction
    rw [transaction_bytes_injective (Option.some.inj htransaction), hgeneration, hidentity]

theorem covered_recover (hs : Consistent manager s) (hc : Covered involved s)
    (hphase : RecoverPhase manager s g s') : Covered (involved ++ [g]) s' := by
  have hsub : ∀ g' ∈ involved, g' ∈ involved ++ [g] := fun _ h => List.mem_append_left _ h
  have hmine : g ∈ involved ++ [g] := List.mem_append_right _ List.mem_cons_self
  have hsettle : ∀ {record state} (t : ExecutionId), t ≠ g.transaction_id →
      (settle s g record state).transactions t = s.transactions t :=
    fun t ht => Function.update_of_ne ht ..
  -- the transaction that is completed was covered before, or it owns the lock
  have hcompleting : ∀ {record : TransactionRecord}, RecoversActive manager s g record →
      (∃ g' ∈ involved ++ [g], g'.identity = record.generation ∧
        ∀ reference ∈ references g', Kept s reference) ∨
        ∃ owner, s.lock = some (lock_bytes owner) ∧ owner.transaction_id = g.transaction_id := by
    intro record hactive
    rcases hs.owned _ record hactive.transaction with h | h | h
    · exact (hc _ record hactive.transaction h).imp_left
        fun ⟨g', hg', hrest⟩ => ⟨g', hsub g' hg', hrest⟩
    · rcases hactive.state with h' | ⟨h', -⟩ <;> rw [h] at h' <;> cases h'
    · exact Or.inr h
  have hrecord : ∀ {record : TransactionRecord} {state : LeanGenerationStateV1} {other},
      (settle s g record state).transactions g.transaction_id = some (transaction_bytes other) →
      other = { record with state := state } := by
    intro record state other htext
    have hself : (settle s g record state).transactions g.transaction_id =
        some (transaction_bytes { record with state := state }) := Function.update_self ..
    rw [hself] at htext
    exact (transaction_bytes_injective (Option.some.inj htext)).symm
  have howner : ∀ {s' : ProjectState}, s.lock = none ∨ s.lock = some (lock_bytes g) →
      ∀ owner, s.lock = some (lock_bytes owner) →
      owner.transaction_id = g.transaction_id ∨ s'.lock = s.lock := by
    rintro _ (hnone | hown) owner hlock
    · rw [hnone] at hlock
      cases hlock
    · rw [hown] at hlock
      exact Or.inl (lock_bytes_injective (Option.some.inj hlock)).1.symm
  cases hphase with
  | idle =>
    exact hc.update hsub (fun _ h => h) g.transaction_id (fun _ _ => rfl) (fun _ _ => Or.inr rfl)
      fun record htext hpublished => (hc _ record htext hpublished).imp_left
        fun ⟨g', hg', hrest⟩ => ⟨g', hsub g' hg', hrest⟩
  | published record hactive =>
    refine hc.update hsub (keeps_of_eq rfl) g.transaction_id hsettle (fun _ _ => Or.inr rfl) ?_
    intro other htext _
    have hgeneration : other.generation = record.generation := by rw [hrecord htext]
    rw [hgeneration]
    exact hcompleting hactive
  | retained record hactive text hretains =>
    refine hc.update hsub (hretains.keeps rfl).1 g.transaction_id hsettle (fun _ _ => Or.inr rfl) ?_
    intro other htext _
    rw [hrecord htext]
    exact Or.inl ⟨g, hmine, (hactive.generation hs).symm, (hretains.keeps rfl).2⟩
  | completed record hactive text hretains _ hlock =>
    refine hc.update hsub (hretains.keeps rfl).1 g.transaction_id hsettle (howner hlock) ?_
    intro other htext _
    rw [hrecord htext]
    exact Or.inl ⟨g, hmine, (hactive.generation hs).symm, (hretains.keeps rfl).2⟩
  | failed record _ temps _ =>
    refine hc.update hsub (keeps_of_eq rfl) g.transaction_id hsettle (fun _ _ => Or.inr rfl) ?_
    intro other htext hpublished
    rw [hrecord htext] at hpublished
    cases hpublished
  | abandoned record _ hlock =>
    refine hc.update hsub (keeps_of_eq rfl) g.transaction_id hsettle (howner hlock) ?_
    intro other htext hpublished
    rw [hrecord htext] at hpublished
    cases hpublished

theorem covered_rollback (hc : Covered involved s) {current retained : LeanBunGenerationV1}
    (hphase : RollbackPhase manager s current retained s') :
    Covered (involved ++ [current, retained]) s' := by
  -- a rollback touches neither the transactions nor the retained record
  have hsame : ∀ {s' : ProjectState}, s'.transactions = s.transactions → s'.retained = s.retained →
      (s.lock = none ∨ s'.lock = s.lock) → Covered (involved ++ [current, retained]) s' := by
    intro s' htransactions hretained hlock t record htext hpublished
    rw [htransactions] at htext
    rcases hc t record htext hpublished with ⟨g, hg, hid, hall⟩ | ⟨owner, howner, hid⟩
    · exact Or.inl ⟨g, List.mem_append_left _ hg, hid,
        fun reference hr => keeps_of_eq hretained reference (hall reference hr)⟩
    · rcases hlock with hnone | hlock
      · rw [hnone] at howner
        cases howner
      · exact Or.inr ⟨owner, hlock.trans howner, hid⟩
  cases hphase with
  | idle => exact hsame rfl rfl (Or.inr rfl)
  | locked hfree => exact hsame rfl rfl (Or.inl hfree)
  | renamed hfree => exact hsame rfl rfl (Or.inl hfree)

/-- **Run.** In every state of a run, a published transaction without its references
owns the lock. -/
theorem History.covered (h : History manager involved s) : Covered involved s := by
  induction h with
  | initial => exact Covered.initial
  | @step involved s hrun operation n ih =>
    have hs := hrun.consistent
    cases operation with
    | publish objects g fault =>
      unfold ManagerOperation.program
      rw [Prog.crash_bind_pure]
      exact covered_publish ih (publish_crash manager s objects g fault n)
    | recover g =>
      unfold ManagerOperation.program
      rw [Prog.crash_bind_pure]
      exact covered_recover hs ih (recover_crash hs g n)
    | rollback current retained => exact covered_rollback ih (rollback_crash hs current retained n)

/-! ## The references of published generations -/

/-- The transaction of `g` is published. -/
def IsPublished (s : ProjectState) (g : LeanBunGenerationV1) : Prop :=
  ∃ record, read_transaction s g.transaction_id = .ok (some record) ∧
    record.generation = g.identity ∧ record.state = .Published

/-- SHA-256 maps the bytes of `g` and of a generation of the run to one identity,
and the bytes differ. -/
def Collides (involved : List LeanBunGenerationV1) (g : LeanBunGenerationV1) : Prop :=
  ∃ g' ∈ involved, g'.identity = g.identity ∧
    generation_identity_bytes g' ≠ generation_identity_bytes g

/-- The references of a generation depend only on the bytes of its identity. -/
theorem references_of_bytes {g' : LeanBunGenerationV1}
    (h : generation_identity_bytes g' = generation_identity_bytes g) : references g' = references g := by
  obtain ⟨-, -, -, -, -, -, -, -, -, hfacts⟩ := identity_bytes_bind h
  have hidentity : g'.identity = g.identity := congrArg digest h
  have hobjects : ∀ g : LeanBunGenerationV1, references g =
      (g.packages.map GenerationPackageV1.facts).map fun facts =>
        (g.identity, facts.store_object_sha256) := by
    intro g
    rw [List.map_map]
    rfl
  rw [hobjects g', hobjects g, hfacts, hidentity]

theorem is_published_renamed {directory : Option GenerationDirectory} {retained lock : Option Str} :
    IsPublished (renamed s g .Published directory retained lock) g :=
  ⟨transaction_record g .Published, read_transaction_bytes (Function.update_self ..), rfl, rfl⟩

end LeanBun.Generation
