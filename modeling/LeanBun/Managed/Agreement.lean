/-
What a run leaves for the next operation: the two records agree, and a rollback has
something to go back to.

Both hold as long as a rollback that has begun to change things gets through. The
second fails in another way as well: a recovery that completes an interrupted first
adoption writes down the adoption as its own predecessor.
-/
import LeanBun.Managed.Sample

set_option autoImplicit false

namespace LeanBun.Managed

open LeanBun.Lib LeanBun.Core LeanBun.Generation

variable {controller : ManagedProjectControllerV1} {made : Made} {s : ManagedState}

/-! ## The two records -/

/-- **The two records agree.** In every state that such a run reaches, a managed record
with nothing pending calls that transaction active which the active record of the
generation manager names, and it is published. -/
theorem records_agree (h : Run controller (KeepsPairing controller) s) :
    ∀ record, reads s record → record.pending_transaction = none →
      ActiveIs s.generations record.active_transaction ∧
        IsPublished s.generations record.active_transaction :=
  fun _ hreads hpending => (h.paired.read hreads).settled_names hpending

/-- What the sample project makes. -/
def sample_made : Made := Made.with (Made.with (fun _ => none) (some first_made)) (some second_made)

/-- The run of the sample project: its adoption, and an update. -/
theorem sample_run {allowed : ManagedState → ManagedOperation → ℕ → Prop} {s₁ s₂ : ProjectState}
    (h : PublishedTwice sample_manager no_objects first_made second_made s₁ s₂)
    (hadopt : ∀ n, allowed ManagedState.initial sample_adoption n)
    (hupdate : ∀ n, allowed (sample_first s₁) sample_update n) :
    History sample_controller allowed sample_made (sample_second s₂) := by
  obtain ⟨n, hn⟩ := sample_adopted h
  obtain ⟨m, hm⟩ := sample_updated h
  have hfirst : ManagedInputs.begins sample_controller (sample_inputs first_transaction) =
      some first_made := begins_eq_some.mpr ⟨_, rfl, bare_model, rfl, first_made_gives⟩
  have hsecond : ManagedInputs.begins sample_controller (sample_inputs second_transaction) =
      some second_made := begins_eq_some.mpr ⟨_, rfl, bare_model, rfl, second_made_gives⟩
  have hinitial : History sample_controller allowed (fun _ => none) ManagedState.initial := .initial
  have hadopted := History.step hinitial sample_adoption n (hadopt n)
  rw [hn] at hadopted
  have hupdated := History.step hadopted sample_update m (hupdate m)
  rw [hm] at hupdated
  unfold sample_made
  rw [← hfirst, ← hsecond]
  exact hupdated

theorem History.run {allowed : ManagedState → ManagedOperation → ℕ → Prop}
    (h : History controller allowed made s) : Run controller allowed s := by
  induction h with
  | initial => exact .initial
  | step _ operation n hallowed ih => exact .step ih operation n hallowed

/-- The theorem after an adoption and an update. -/
theorem records_agree_sample : ∃ s₂, ActiveIs s₂ second_transaction ∧
    IsPublished s₂ second_transaction := by
  obtain ⟨s₁, s₂, h⟩ := made_published
  have hhistory : History sample_controller (KeepsPairing sample_controller) sample_made
      (sample_second s₂) := sample_run h (fun _ => trivial) fun _ => trivial
  have hrun := hhistory.run
  exact ⟨s₂, records_agree hrun second_record (sample_reads rfl rfl rfl) rfl⟩

/-- **A rollback that is cut off** between the two records: nothing is pending, and the
active record names another transaction than the managed record. -/
theorem records_torn : ∃ s, Run sample_controller (fun _ _ _ => True) s ∧
    ∃ record, reads s record ∧ record.pending_transaction = none ∧
      ¬ActiveIs s.generations record.active_transaction := by
  obtain ⟨s₁, s₂, h⟩ := made_published
  have hhistory : History sample_controller (fun _ _ _ => True) sample_made (sample_second s₂) :=
    sample_run h (fun _ => trivial) fun _ => trivial
  have hrun := hhistory.run
  have hlocation : valid_location sample_manager first_made = true := bare_made_location _ _ _ _
  obtain ⟨n, hn⟩ := Generation.rollback_cut h.second_free h.second_active h.first_kept hlocation
    made_identities_distinct made_transactions_distinct first_made_clean
  have hreverts : Reverts sample_controller (sample_inputs first_transaction) (sample_second s₂)
      second_record first_transaction bare_model second_made first_made := sample_reverts _
  obtain ⟨k, hk⟩ := rollback_cut hreverts n
  have htorn := Run.step hrun (.rollback (sample_inputs first_transaction)) k trivial
  rw [hk] at htorn
  refine ⟨_, htorn, second_record, sample_reads rfl rfl rfl, rfl, ?_⟩
  rintro ⟨named, hnamed, ht⟩
  have hactive : some (active_text first_made) = some (active_bytes named) := by
    rw [← hnamed]
    exact congrArg ProjectState.active hn.symm
  have hsame := active_bytes_transaction (Option.some.inj hactive)
  exact absurd (hsame.trans ht) (by decide)

/-! ## The rollback target -/

/-- The inputs have not changed: the model gives the generations that were made for the
two transactions of the record. -/
def Unchanged (controller : ManagedProjectControllerV1) (made : Made) (record : ManagedRecordV1)
    (inputs : ManagedInputs) : Prop :=
  ∃ model, inputs.model = .ok model ∧
    record.management_input_sha256 = model.management_input_sha256 ∧
    ∀ t, t = record.active_transaction ∨ record.previous_transaction = some t →
      ∀ g, made t = some g → model.generation controller.manager t = .ok g

theorem InOrder.published {generations : ProjectState}
    {g : LeanBunGenerationV1} (h : InOrder generations g .Published) : Published generations g :=
  ⟨⟨_, read_transaction_bytes h.1, rfl, rfl, rfl⟩, h.2⟩

/-- **The rollback target is kept.** In every state that such a run reaches, the
transaction that a managed record with nothing pending calls the previous one is not the
active one; it is published, and its directory is as it was made. With unchanged inputs
a rollback goes back to it. -/
theorem rollback_target_kept (h : History controller (KeepsTargets controller) made s)
    {record : ManagedRecordV1} (hreads : reads s record) (hsettled : record.pending_transaction = none)
    {previous : ExecutionId} (hprevious : record.previous_transaction = some previous) :
    previous ≠ record.active_transaction ∧
      (∃ g, made previous = some g ∧ Published s.generations g) ∧
      ∀ inputs, Unchanged controller made record inputs → made.Distinct →
        ∃ status s', (Managed.rollback controller inputs).run s = (.ok status, s') ∧
          reads s' (returned_record record previous) ∧ ActiveIs s'.generations previous := by
  have hs := h.kept.consistent
  obtain ⟨hfree, ⟨g, hg, horder, hactive⟩, htargets⟩ :=
    (h.kept.read hreads).settled_spec hsettled
  obtain ⟨hne, g', hg', horder'⟩ := htargets previous hprevious
  refine ⟨hne, ⟨g', hg'.1, horder'.published⟩, ?_⟩
  rintro inputs ⟨model, hmodel, hsame, hgives⟩ hdistinct
  have hreverts : Reverts controller inputs s record previous model g g' :=
    ⟨h.left, hreads, hsettled, hprevious, hmodel, hsame, hgives _ (Or.inl rfl) g hg.1,
      hgives _ (Or.inr hprevious) g' hg'.1⟩
  have hclean := clean_of_published hs hg'.2.location horder'.published
  have hverified : Active controller.manager s.generations g := by
    have hclean := clean_of_published hs hg.2.location horder.published
    refine ⟨hg.2.location, ⟨active_record g, ?_, ?_⟩, horder.published⟩
    · exact (read_active_bytes hactive).mpr ⟨rfl, hclean, active_text_small g⟩
    · unfold names_generation active_record
      simp
  have hidentity : g.identity ≠ g'.identity := fun heq =>
    hne (hdistinct _ _ _ _ hg.1 hg'.1 heq).symm
  have htransaction : g.transaction_id ≠ g'.transaction_id := by
    rw [hg.2.named, hg'.2.named]
    exact Ne.symm hne
  have hrun := rollback_completes hfree hverified horder'.published hg'.2.location hclean hidentity
    htransaction
  refine ⟨_, _, rollback_returns hreverts hrun, ?_, ?_⟩
  · -- the new record is as long as the old one
    obtain ⟨text, htext, hread⟩ := hreads
    obtain ⟨rfl, hrecord, hsmall⟩ := read_text_eq_ok hread
    refine ⟨_, rfl, read_text_bytes hrecord ?_⟩
    rw [returned_record_small hprevious]
    exact hsmall
  · rw [← hg'.2.named]
    exact active_is_record rfl

theorem sample_made_cases {t : ExecutionId} {g : LeanBunGenerationV1} (h : sample_made t = some g) :
    t = second_transaction ∧ g = second_made ∨ t = first_transaction ∧ g = first_made := by
  unfold sample_made Made.with at h
  by_cases hsecond : t = second_transaction
  · subst hsecond
    have hself : Function.update (Function.update (fun _ => none) first_made.transaction_id
        (some first_made)) second_made.transaction_id (some second_made) second_transaction =
          some second_made := Function.update_self ..
    exact Or.inl ⟨rfl, (Option.some.inj (hself.symm.trans h)).symm⟩
  · have hother : Function.update (Function.update (fun _ => none) first_made.transaction_id
        (some first_made)) second_made.transaction_id (some second_made) t =
          Function.update (fun _ => none) first_made.transaction_id (some first_made) t :=
      Function.update_of_ne hsecond ..
    replace h := hother.symm.trans h
    by_cases hfirst : t = first_transaction
    · subst hfirst
      have hself : Function.update (fun _ : ExecutionId => none) first_made.transaction_id
          (some first_made) first_transaction = some first_made := Function.update_self ..
      exact Or.inr ⟨rfl, (Option.some.inj (hself.symm.trans h)).symm⟩
    · have hnone : Function.update (fun _ : ExecutionId => none) first_made.transaction_id
          (some first_made) t = none := Function.update_of_ne hfirst ..
      cases hnone.symm.trans h

/-- The theorem after an adoption and an update. -/
theorem rollback_target_sample : ∃ s₂ status s',
    (Managed.rollback sample_controller (sample_inputs first_transaction)).run (sample_second s₂) =
      (.ok status, s') ∧ ActiveIs s'.generations first_transaction := by
  obtain ⟨s₁, s₂, h⟩ := made_published
  have hrun : History sample_controller (KeepsTargets sample_controller) sample_made
      (sample_second s₂) := by
    refine sample_run h (fun n => ?_) fun n => ?_
    · exact fun _ _ => rfl
    · intro transaction htransaction
      rw [← Except.ok.inj htransaction]
      exact h.second_fresh
  have hunchanged : Unchanged sample_controller sample_made second_record
      (sample_inputs first_transaction) := by
    refine ⟨bare_model, rfl, rfl, fun t _ g hg => ?_⟩
    rcases sample_made_cases hg with ⟨rfl, rfl⟩ | ⟨rfl, rfl⟩
    · exact second_made_gives
    · exact first_made_gives
  have hdistinct : sample_made.Distinct := by
    intro t t' g g' hg hg' heq
    rcases sample_made_cases hg with ⟨rfl, rfl⟩ | ⟨rfl, rfl⟩ <;>
      rcases sample_made_cases hg' with ⟨rfl, rfl⟩ | ⟨rfl, rfl⟩
    · rfl
    · exact absurd heq made_identities_distinct
    · exact absurd heq.symm made_identities_distinct
    · rfl
  have hreads : reads (sample_second s₂) second_record := sample_reads rfl rfl rfl
  obtain ⟨-, -, hrollback⟩ := rollback_target_kept hrun hreads rfl
    (show second_record.previous_transaction = some first_transaction from rfl)
  obtain ⟨status, s', hrun, -, hactive⟩ := hrollback _ hunchanged hdistinct
  exact ⟨s₂, status, s', hrun, hactive⟩

/-- **An adoption as its own predecessor.** The adoption is cut off between its two
records, and a recovery completes it. -/
theorem adopted_twice : ∃ s, Run sample_controller (fun _ _ _ => True) s ∧
    ∃ record, reads s record ∧ record.pending_transaction = none ∧
      record.previous_transaction = some record.active_transaction := by
  obtain ⟨s₁, s₂, h⟩ := made_published
  -- the publication has ended, the managed record is the reservation
  obtain ⟨n, hn⟩ := Prog.crash_run (publish sample_manager no_objects first_made .None)
    ProjectState.initial
  replace hn : (publish sample_manager no_objects first_made .None).crash n ProjectState.initial = s₁ :=
    hn.trans (congrArg Prod.snd h.first_run)
  obtain ⟨k, hk⟩ := adopt_cut sample_adopts .None rfl n
  have hinitial : Run sample_controller (fun _ _ _ => True) ManagedState.initial := .initial
  have hcut := Run.step hinitial sample_adoption k trivial
  replace hk : sample_adoption.cut sample_controller k ManagedState.initial =
      ⟨some (record_bytes first_record), false, s₁⟩ := by
    rw [← hn]
    exact hk
  rw [hk] at hcut
  have hs : Consistent sample_controller.manager s₁ :=
    consistent_publish_run Consistent.initial h.first_run
  obtain ⟨hlocation, ⟨active, hread, hnames⟩, hpublished⟩ := h.first_active
  obtain ⟨settled, htext, -, hstate⟩ := published_text hs hpublished
  have hreads : reads ⟨some (record_bytes first_record), false, s₁⟩ first_record :=
    sample_reads rfl rfl rfl
  have hrecorded : s₁.transactions first_transaction ≠ none := by
    intro hnone
    cases hnone.symm.trans htext
  have hrestores : Restores sample_controller (sample_inputs first_transaction)
      ⟨some (record_bytes first_record), false, s₁⟩ first_record first_transaction bare_model
      first_made := ⟨rfl, hreads, rfl, hrecorded, rfl, rfl, first_made_gives⟩
  -- the manager's recovery finds everything in place
  have hrecoverable : Recoverable sample_controller.manager s₁ first_made :=
    ⟨Or.inl h.first_free, Or.inl ⟨⟨settled, hlocation, ⟨active, hread, hnames⟩, hpublished.2, htext,
      Or.inl hstate⟩, h.first_fits⟩⟩
  obtain ⟨result, hresult, -⟩ := recover_of_recoverable hs.temps hrecoverable
  have hrecover := Prod.eta ((Generation.recover sample_controller.manager first_made).run s₁)
  rw [hresult] at hrecover
  have hsettled : recovered_record first_record first_transaction true =
      recovered_record first_record first_transaction (committed (some active) first_made) :=
    congrArg (recovered_record first_record first_transaction)
      (decide_eq_true (names_generation_transaction hnames).2.1).symm
  have hend := recover_settles hrestores hread hrecover.symm hsettled (sample_small rfl rfl)
  have hrun := Prod.eta ((Managed.recover sample_controller (sample_inputs first_transaction)).run
    ⟨some (record_bytes first_record), false, s₁⟩)
  rw [hend] at hrun
  obtain ⟨m, hm⟩ : ∃ m, sample_recovery.cut sample_controller m _ = _ := cut_run hrun.symm
  have hrecovered := Run.step hcut sample_recovery m trivial
  rw [hm] at hrecovered
  exact ⟨_, hrecovered, recovered_record first_record first_transaction true,
    sample_reads rfl rfl rfl, rfl, rfl⟩

end LeanBun.Managed
