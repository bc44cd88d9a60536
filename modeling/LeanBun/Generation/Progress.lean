/-
A publication that nothing disturbs.

When the materialization succeeds, a publication of a fresh generation gets to
the rename of the active record. From there on it returns exactly when the
active record can be read back and the retained record has room. A generation
without packages always materializes.
-/
import LeanBun.Core.Evaluate
import LeanBun.Generation.Invariant

set_option autoImplicit false

namespace LeanBun.Generation

open LeanBun.Lib LeanBun.Core LeanBun.Store

variable {manager : LeanGenerationManagerV1} {s : ProjectState} {g : LeanBunGenerationV1}

/-- A crash point where nothing is asked of the state. -/
abbrev Anywhere (_ : ProjectState) : Prop := True

/-- The materialization of `g` succeeds and leaves `directory`, which passes the
verification. -/
def Materializes (objects : ObjectTrees) (g : LeanBunGenerationV1) (directory : GenerationDirectory) :
    Prop :=
  verify_directory g (some directory) = .ok () ∧
    ∀ s : ProjectState, s.generations g.transaction_id = none →
      Prog.Holds Anywhere (fun _ s' => s' = s.set_generation g.transaction_id directory)
        (fun _ _ => False) (materialize_generation objects g .None) s

/-- The materialization sees nothing but the directory of its generation. -/
theorem materialize_generation_local (objects : ObjectTrees) (fault : LeanGenerationFaultV1) :
    (materialize_generation objects g fault).Local fun s => s.generations g.transaction_id := by
  have hset : ∀ (s : ProjectState) (directory : GenerationDirectory),
      (s.set_generation g.transaction_id directory).generations g.transaction_id = some directory :=
    fun _ _ => Function.update_self ..
  have hchange : ∀ f, (change_directory g f).Local fun s => s.generations g.transaction_id := by
    intro f
    apply Prog.local_atomic
    intro s s' hsame
    rw [hsame]
    cases hdirectory : s'.generations g.transaction_id with
    | none => exact ⟨rfl, hsame⟩
    | some directory => exact ⟨rfl, (hset s _).trans (hset s' _).symm⟩
  have hroot : (create_generation_root g).Local fun s => s.generations g.transaction_id := by
    apply Prog.local_atomic
    intro s s' hsame
    rw [hsame]
    cases hdirectory : s'.generations g.transaction_id with
    | none => exact ⟨rfl, (hset s _).trans (hset s' _).symm⟩
    | some directory => exact ⟨rfl, hsame⟩
  have hinject : ∀ expected stage, (inject fault expected stage).Local
      fun s => s.generations g.transaction_id := fun _ _ => Prog.local_lift
  have hpackage : ∀ package, (materialize_package objects g package).Local
      fun s => s.generations g.transaction_id := fun package =>
    Prog.local_lift.bind fun _ => (hchange _).bind fun _ => Prog.local_lift.bind fun _ =>
      Prog.Local.for_each fun _ _ => hchange _
  exact hroot.bind fun _ => (hchange _).bind fun _ => (hinject _ _).bind fun _ =>
    (hchange _).bind fun _ => (hinject _ _).bind fun _ => (hchange _).bind fun _ =>
    (hinject _ _).bind fun _ => (hchange _).bind fun _ =>
    (Prog.Local.for_each fun package _ => hpackage package).bind fun _ => (hinject _ _).bind fun _ =>
    (hchange _).bind fun _ => (hinject _ _).bind fun _ => (hinject _ _).bind fun _ =>
    (hinject _ _).bind fun _ => hchange _

/-- What one materialization leaves, every one does. -/
theorem materializes_of_run {objects : ObjectTrees} {directory : GenerationDirectory}
    {before after : ProjectState} (habsent : before.generations g.transaction_id = none)
    (hrun : (materialize_generation objects g .None).run before = (.ok (), after))
    (hafter : after.generations g.transaction_id = some directory)
    (hverified : verify_directory g (some directory) = .ok ()) : Materializes objects g directory := by
  refine ⟨hverified, fun s hs => ?_⟩
  have hsame := (materialize_generation_local (g := g) objects .None).run (habsent.trans hs.symm)
  rw [hrun] at hsame
  obtain ⟨hok, hleft⟩ := hsame
  have hframe := (materialize_generation_steps (g := g) objects .None).holds
    (J := fun s' => s' = s ∨ ∃ directory, s' = s.set_generation g.transaction_id directory) (s := s) ?_
    (Or.inl rfl)
  · refine (hframe.and (Prog.holds_of_run _ s)).mono (fun _ _ => trivial) ?_ ?_
    · rintro _ s' - ⟨hs', hs'run⟩
      rw [hs'run] at hleft
      have hleft : s'.generations g.transaction_id = some directory := hleft.symm.trans hafter
      rcases hs' with rfl | ⟨other, rfl⟩
      · rw [hs] at hleft
        cases hleft
      · have hself : (s.set_generation g.transaction_id other).generations g.transaction_id =
            some other := Function.update_self ..
        rw [hself] at hleft
        rw [Option.some.inj hleft]
    · rintro e s' - ⟨-, hfail⟩
      rw [hfail] at hok
      cases hok
  · rintro _ _ _ ⟨-, hstep⟩ hbefore
    rcases hstep with rfl | ⟨next, rfl⟩
    · exact hbefore
    · rcases hbefore with rfl | ⟨old, rfl⟩
      · exact Or.inr ⟨next, rfl⟩
      · refine Or.inr ⟨next, ?_⟩
        unfold ProjectState.set_generation
        rw [Function.update_idem]

/-- **Progress.** A publication that nothing disturbs returns, or its objects cannot be
materialized and it stops before the rename, or a record cannot be read and it stops
after the rename. -/
theorem publish_undisturbed (objects : ObjectTrees) (hlocation : valid_location manager g = true)
    (hfree : s.lock = none) (hfresh : s.transactions g.transaction_id = none)
    (habsent : s.generations g.transaction_id = none) :
    Prog.Holds Anywhere
      (fun result s' => result = outcome g .Published ∧ ∃ directory text,
        Materializes objects g directory ∧ Retains s g text ∧ byte_len text ≤ MAX_RECORD_BYTES ∧
        clean_value g.generation_root = true ∧
        s' = renamed s g .Published (some directory) (some text) none)
      (fun _ s' => (s'.active = s.active ∧ ∀ directory, ¬Materializes objects g directory) ∨
        (∃ directory, Materializes objects g directory) ∧ s'.active = some (active_text g) ∧
          ¬(clean_value g.generation_root = true ∧ fits s g))
      (publish manager objects g .None) s := by
  unfold publish
  refine Holds.check_bind trivial (fun e he => ?_) fun _ => ?_
  · rw [if_pos hlocation] at he
    cases he
  refine Holds.acquire_lock_bind trivial (fun h => absurd hfree h) fun _ => ?_
  refine Holds.inject_bind trivial (fun h => by cases h) ?_
  apply Prog.Holds.bind (J := fun _ s' => s' = staged s g .Preparing none s.active_temps)
  · refine Holds.create_transaction_record trivial (fun h => absurd hfresh h) fun _ => ⟨trivial, ?_⟩
    unfold ProjectState.set_transaction staged
    rw [← habsent, Function.update_eq_self]
  rintro _ _ - rfl
  refine Holds.inject_bind trivial (fun h => by cases h) ?_
  have hbefore : (staged s g .Preparing none s.active_temps).generations g.transaction_id = none :=
    Function.update_self ..
  -- the materialization fails for good, or it leaves a directory
  apply Prog.Holds.bind (J := fun _ s' => ∃ directory,
    s' = staged s g .Preparing directory s.active_temps ∧
    (materialize_generation objects g .None).run (staged s g .Preparing none s.active_temps) =
      (.ok (), s'))
  · have hframe := (materialize_generation_steps (g := g) objects .None).holds
      (J := fun s' => ∃ directory, s' = staged s g .Preparing directory s.active_temps)
      (s := staged s g .Preparing none s.active_temps) ?_ ⟨none, rfl⟩
    · refine (hframe.and (Prog.holds_of_run _ _)).mono (fun _ _ => trivial) ?_ ?_
      · rintro _ s' - ⟨⟨directory, hs'⟩, hrun⟩
        exact ⟨directory, hs', hrun⟩
      · rintro e s' - ⟨⟨directory, hs'⟩, hrun⟩
        refine Or.inl ⟨by rw [hs']; rfl, fun complete hcomplete => ?_⟩
        obtain ⟨_, hok, -⟩ := (hcomplete.2 _ hbefore).returns
        rw [hrun] at hok
        cases hok
    · rintro _ before _ ⟨-, hstep⟩ ⟨old, rfl⟩
      rcases hstep with rfl | ⟨next, rfl⟩
      · exact ⟨old, rfl⟩
      · refine ⟨some next, ?_⟩
        unfold ProjectState.set_generation staged
        dsimp only
        rw [Function.update_idem]
  rintro _ _ - ⟨directory, rfl, hrun⟩
  have hafter : ∀ state, (staged s g state directory s.active_temps).generations g.transaction_id =
      directory := fun _ => Function.update_self ..
  apply Prog.Holds.bind (J := fun _ s' => s' = staged s g .Materialized directory s.active_temps)
  · exact staged_transition rfl trivial trivial rfl
  rintro _ _ - rfl
  refine Holds.inject_bind trivial (fun h => by cases h) ?_
  refine Holds.verify_generation_bind trivial (fun hnot _ => ?_) fun hverified => ?_
  · -- what is left does not verify, so nothing does
    refine Or.inl ⟨rfl, fun complete hcomplete => hnot ?_⟩
    obtain ⟨_, -, hleft⟩ := (hcomplete.2 _ hbefore).returns
    rw [hrun] at hleft
    have hsame : directory = some complete := by
      rw [← hafter .Preparing, show staged s g .Preparing directory s.active_temps = _ from hleft]
      exact Function.update_self ..
    rw [hafter, hsame]
    exact hcomplete.1
  rw [hafter] at hverified
  obtain ⟨complete, rfl⟩ : ∃ complete, directory = some complete := by
    cases directory with
    | none => cases hverified
    | some complete => exact ⟨complete, rfl⟩
  have hdirectory : Materializes objects g complete :=
    materializes_of_run hbefore hrun (hafter .Preparing) hverified
  apply Prog.Holds.bind (J := fun _ s' => s' = staged s g .Verified (some complete) s.active_temps)
  · exact staged_transition rfl trivial trivial rfl
  rintro _ _ - rfl
  refine Holds.inject_bind trivial (fun h => by cases h) ?_
  apply Prog.Holds.bind (J := fun _ s' => clean_value g.generation_root = true ∧
    s' = renamed s g .Verified (some complete) s.retained (some (lock_bytes g)))
  · refine Holds.publish_active trivial trivial (fun h => by cases h) trivial ?_
      fun hclean => ⟨hclean, rfl⟩
    intro hunclean _
    refine Or.inr ⟨⟨complete, hdirectory⟩, rfl, fun h => ?_⟩
    rw [hunclean] at h
    cases h.1
  rintro _ _ - ⟨hclean, rfl⟩
  refine Holds.inject_bind trivial (fun h => by cases h) ?_
  apply Prog.Holds.bind (J := fun _ s' =>
    s' = renamed s g .Published (some complete) s.retained (some (lock_bytes g)))
  · exact renamed_transition rfl trivial trivial rfl
  rintro _ _ - rfl
  refine Holds.inject_bind trivial (fun h => by cases h) ?_
  apply Prog.Holds.bind (J := fun _ s' => ∃ text, Retains s g text ∧
    byte_len text ≤ MAX_RECORD_BYTES ∧
    s' = renamed s g .Published (some complete) (some text) (some (lock_bytes g)))
  · refine Holds.update_retained trivial ?_ ?_
    · intro hunread _
      refine Or.inr ⟨⟨complete, hdirectory⟩, rfl, fun h => ?_⟩
      exact h.2.elim fun pairs hpairs => hunread pairs hpairs.1
    · intro text htext
      refine ⟨trivial, fun hlarge _ => Or.inr ⟨⟨complete, hdirectory⟩, rfl, fun h => ?_⟩,
        fun hsmall => ⟨text, htext, hsmall, rfl⟩⟩
      obtain ⟨pairs, hpairs, rfl⟩ := htext
      obtain ⟨others, hothers, hsmall⟩ := h.2
      rw [show read_retained s = .ok pairs from hpairs] at hothers
      rw [← Except.ok.inj hothers] at hsmall
      omega
  rintro _ _ - ⟨text, htext, hsmall, rfl⟩
  refine Holds.inject_bind trivial (fun h => by cases h) ?_
  refine Holds.inject_bind trivial (fun h => by cases h) ?_
  apply Prog.Holds.bind (J := fun _ s' => s' = renamed s g .Published (some complete) (some text) none)
  · exact Holds.release_lock trivial rfl trivial rfl
  rintro _ _ - rfl
  exact Prog.holds_pure.mpr ⟨trivial, rfl, complete, text, hdirectory, htext, hsmall, hclean, rfl⟩

/-- The directory of a generation that materializes is determined. -/
theorem Materializes.unique {objects : ObjectTrees} {directory directory' : GenerationDirectory}
    (h : Materializes objects g directory) (h' : Materializes objects g directory') :
    directory = directory' := by
  obtain ⟨_, -, hleft⟩ := (h.2 ProjectState.initial rfl).returns
  obtain ⟨_, -, hleft'⟩ := (h'.2 ProjectState.initial rfl).returns
  have hsame := congrArg (fun s : ProjectState => s.generations g.transaction_id)
    (hleft.symm.trans hleft')
  have hself : ∀ d : GenerationDirectory, (ProjectState.initial.set_generation g.transaction_id
      d).generations g.transaction_id = some d := fun _ => Function.update_self ..
  rw [hself, hself] at hsame
  exact Option.some.inj hsame

/-- The same for objects that are known to materialize. -/
theorem publish_progress {objects : ObjectTrees} {directory : GenerationDirectory}
    (hlocation : valid_location manager g = true) (hfree : s.lock = none)
    (hfresh : s.transactions g.transaction_id = none)
    (habsent : s.generations g.transaction_id = none) (hdirectory : Materializes objects g directory) :
    Prog.Holds Anywhere
      (fun result s' => result = outcome g .Published ∧ ∃ text, Retains s g text ∧
        s' = renamed s g .Published (some directory) (some text) none)
      (fun _ s' => s'.active = some (active_text g) ∧
        ¬(clean_value g.generation_root = true ∧ fits s g))
      (publish manager objects g .None) s := by
  refine (publish_undisturbed objects hlocation hfree hfresh habsent).mono (fun _ h => h) ?_ ?_
  · rintro result s' - ⟨hresult, complete, text, hcomplete, htext, -, -, hs'⟩
    rw [hcomplete.unique hdirectory] at hs'
    exact ⟨hresult, text, htext, hs'⟩
  · rintro _ _ - (⟨-, hnot⟩ | ⟨-, h⟩)
    · exact absurd hdirectory (hnot directory)
    · exact h

/-- **Completion.** With a readable active record and room in the retained record the
publication returns. -/
theorem publish_completes {objects : ObjectTrees} {directory : GenerationDirectory}
    (hlocation : valid_location manager g = true) (hfree : s.lock = none)
    (hfresh : s.transactions g.transaction_id = none)
    (habsent : s.generations g.transaction_id = none) (hdirectory : Materializes objects g directory)
    (hplain : plain_path manager.state_root = true) (hfits : fits s g) :
    ∃ text, Retains s g text ∧ byte_len text ≤ MAX_RECORD_BYTES ∧
      (publish manager objects g .None).run s =
        (.ok (outcome g .Published), renamed s g .Published (some directory) (some text) none) := by
  rcases (publish_progress hlocation hfree hfresh habsent hdirectory).run with
    ⟨result, hok, rfl, text, htext, hstate⟩ | ⟨_, -, -, hnot⟩
  · refine ⟨text, htext, ?_, Prod.ext hok hstate⟩
    obtain ⟨pairs, hpairs, rfl⟩ := htext
    obtain ⟨others, hothers, hsmall⟩ := hfits
    rw [hpairs] at hothers
    rw [Except.ok.inj hothers]
    exact hsmall
  · refine absurd ⟨?_, hfits⟩ hnot
    rw [clean_generation_root hlocation, hplain]

/-! ## Generations without packages -/

/-- The complete directory of a generation without packages. -/
def bare_directory (generation : LeanBunGenerationV1) : GenerationDirectory :=
  ⟨fun file => some (generation_text generation file), some []⟩

/-- A step inside a directory that is there. -/
theorem Holds.change_directory {Q : Unit → ProjectState → Prop}
    {E : LeanGenerationError → ProjectState → Prop} {directory next : GenerationDirectory}
    {change : GenerationDirectory → GenerationResult Unit × GenerationDirectory}
    (hchange : change directory = (.ok (), next))
    (hQ : Q () (s.set_generation g.transaction_id next)) :
    Prog.Holds Anywhere Q E (LeanBun.Generation.change_directory g change)
      (s.set_generation g.transaction_id directory) := by
  refine Prog.Holds.atomic_ok (a := ()) ?_ trivial trivial hQ
  rw [show (s.set_generation g.transaction_id directory).generations g.transaction_id =
    some directory from Function.update_self ..]
  dsimp only
  rw [hchange]
  unfold ProjectState.set_generation
  rw [Function.update_idem]

theorem Holds.change_directory_bind {α : Type} {Q : α → ProjectState → Prop}
    {E : LeanGenerationError → ProjectState → Prop} {directory next : GenerationDirectory}
    {change : GenerationDirectory → GenerationResult Unit × GenerationDirectory}
    {f : Unit → ManagerProg α} (hchange : change directory = (.ok (), next))
    (hrest : Prog.Holds Anywhere Q E (f ()) (s.set_generation g.transaction_id next)) :
    Prog.Holds Anywhere Q E (LeanBun.Generation.change_directory g change >>= f)
      (s.set_generation g.transaction_id directory) :=
  Prog.holds_bind.mpr (Holds.change_directory hchange hrest)

/-- The rule for a file that is not there yet. -/
theorem Holds.write_generation_file_bind {α : Type} {Q : α → ProjectState → Prop}
    {E : LeanGenerationError → ProjectState → Prop} {directory : GenerationDirectory}
    {file : GenerationFile} {f : Unit → ManagerProg α} (habsent : directory.files file = none)
    (hrest : Prog.Holds Anywhere Q E (f ()) (s.set_generation g.transaction_id { directory with
      files := Function.update directory.files file (some (generation_text g file)) })) :
    Prog.Holds Anywhere Q E (write_generation_file g file >>= f)
      (s.set_generation g.transaction_id directory) := by
  refine Holds.change_directory_bind ?_ hrest
  rw [habsent]
  rfl

/-- **A generation without packages materializes** when its files can be read. -/
theorem materializes_bare (objects : ObjectTrees) (hbare : g.packages = [])
    (hsmall : ∀ file, byte_len (generation_text g file) ≤ MAX_RECORD_BYTES) :
    Materializes objects g (bare_directory g) := by
  constructor
  · have hall : ∀ file ∈ [GenerationFile.leanbun_lock, .lake_manifest, .runtime_packages,
        .generation_meta], ((bare_directory g).files file).isSome = true := fun _ _ => rfl
    have hexact : ∀ file, require_exact (some (generation_text g file)) (generation_text g file)
        (file_error file) = .ok () := fun file => require_exact_same.mpr (hsmall file)
    unfold verify_directory
    rw [hbare]
    refine bind_eq_ok.mpr ⟨⟨hall⟩, ensure_ok hall _, ?_⟩
    refine bind_eq_ok.mpr ⟨PUnit.unit, ?_, rfl⟩
    simp [bare_directory, hexact, bind, Except.bind, pure, Except.pure]
  · intro s habsent
    have hroot : Prog.Holds Anywhere
        (fun _ s' => s' = s.set_generation g.transaction_id ⟨fun _ => none, none⟩) (fun _ _ => False)
        (create_generation_root g) s := by
      refine Prog.Holds.atomic_ok (a := ()) ?_ trivial trivial rfl
      rw [habsent]
    unfold materialize_generation
    rw [hbare]
    apply hroot.bind
    rintro _ _ - rfl
    apply Holds.write_generation_file_bind rfl
    refine Holds.inject_bind trivial (fun h => by cases h) ?_
    apply Holds.write_generation_file_bind rfl
    refine Holds.inject_bind trivial (fun h => by cases h) ?_
    apply Holds.write_generation_file_bind rfl
    refine Holds.inject_bind trivial (fun h => by cases h) ?_
    refine Holds.change_directory_bind rfl ?_
    refine Prog.holds_bind.mpr ⟨trivial, ?_⟩
    refine Holds.inject_bind trivial (fun h => by cases h) ?_
    apply Holds.write_generation_file_bind rfl
    refine Holds.inject_bind trivial (fun h => by cases h) ?_
    refine Holds.inject_bind trivial (fun h => by cases h) ?_
    refine Holds.inject_bind trivial (fun h => by cases h) ?_
    refine Holds.change_directory rfl ?_
    refine congrArg (s.set_generation g.transaction_id) ?_
    unfold bare_directory
    refine congrArg (fun files => (⟨files, some []⟩ : GenerationDirectory)) (funext fun file => ?_)
    cases file <;> rfl

/-- The metadata of a generation without packages is small: the paths in it are
bounded. -/
theorem metadata_small (hbare : g.packages = []) (hreservoir : g.reservoir_bindings_sha256 = none)
    (htoolchain : byte_len (hex (as_bytes g.lean_toolchain)) ≤ 4096)
    (hgithash : byte_len g.compiler_githash ≤ 4096)
    (hversion : byte_len (hex (as_bytes g.lake_version)) ≤ 4096) :
    byte_len g.canonical_metadata ≤ 2 * 1024 * 1024 := by
  have hpath : ∀ {path : PathBuf}, valid_absolute_path path = true → byte_len path ≤ 4096 := by
    intro path h
    unfold valid_absolute_path at h
    simp only [Bool.and_eq_true, decide_eq_true_eq] at h
    exact h.2
  have hproject := hpath g.project_root_valid
  have hroot := hpath g.generation_root_valid
  have hid := execution_id_bytes g.transaction_id
  unfold LeanBunGenerationV1.canonical_metadata
  rw [hbare, hreservoir]
  generalize g.project_id = project
  generalize g.identity = identity
  have hfield : ∀ {name value : Str}, byte_len name ≤ 100 → byte_len value ≤ 4096 →
      byte_len (field_line name value) < 5000 := by
    intro name value hname hvalue
    rw [byte_len_field_line]
    omega
  refine (byte_len_unlines_le (b := 5000) ?_).trans (by decide : 16 * 5000 ≤ 2 * 1024 * 1024)
  have hdigest : ∀ d : Sha256, byte_len d.to_string ≤ 4096 := fun d =>
    (sha256_bytes d).trans (by decide)
  intro l hl
  simp only [List.mem_append, List.mem_cons, List.not_mem_nil, or_false, Option.elim_none,
    List.map_nil] at hl
  rcases hl with ((rfl | rfl | rfl | rfl | rfl | rfl | rfl | rfl | rfl | rfl) |
    (rfl | rfl | rfl | rfl)) | (rfl | rfl)
  · decide
  · exact hfield (by decide) (hid.trans (by decide))
  · exact hfield (by decide) (hdigest project.digest)
  · exact hfield (by decide) hproject
  · exact hfield (by decide) hroot
  · exact hfield (by decide) (hdigest _)
  · exact hfield (by decide) (hdigest _)
  · exact hfield (by decide) (hdigest _)
  · exact hfield (by decide) (hdigest _)
  · exact hfield (by decide) (hdigest _)
  · exact hfield (by decide) htoolchain
  · exact hfield (by decide) hgithash
  · exact hfield (by decide) hversion
  · exact hfield (by decide) (by decide)
  · exact hfield (by decide) (hdigest _)
  · decide

theorem no_packages_placed (manager : LeanGenerationManagerV1) (transaction : ExecutionId) :
    ∀ package ∈ ([] : List GenerationPackageV1), package.final_path =
      package_path (manager.generation_root transaction) package.key_scope package.key_name :=
  fun _ h => absurd h List.not_mem_nil

theorem no_packages_keyed : ∀ package ∈ ([] : List GenerationPackageV1),
    Lock.valid_atom package.key_scope Lock.MAX_NAME_BYTES true = true ∧
      Lock.valid_atom package.key_name Lock.MAX_NAME_BYTES false = true :=
  fun _ h => absurd h List.not_mem_nil

/-- The generation of a project that has no packages. -/
def bare_generation (manager : LeanGenerationManagerV1) (transaction : ExecutionId)
    (hproject : valid_absolute_path manager.project_root = true)
    (hroot : valid_absolute_path (manager.generation_root transaction) = true) :
    LeanBunGenerationV1 where
  transaction_id := transaction
  project_root := manager.project_root
  generation_root := manager.generation_root transaction
  lock_sha256 := digest (as_bytes "leanbun-lock-bytes-v1\x00".toList ++ as_bytes "lock".toList)
  graph_sha256 := digest (as_bytes "graph".toList)
  decision_set_sha256 := digest (as_bytes "decisions".toList)
  manifest_projection_sha256 := digest (as_bytes "manifest".toList)
  runtime_projection_sha256 := digest (as_bytes "runtime".toList)
  reservoir_bindings_sha256 := none
  lean_toolchain := "leanprover/lean4:v4.0.0".toList
  compiler_githash := "0123456789012345678901234567890123456789".toList
  lake_version := "5.0.0".toList
  lock_text := "lock".toList
  manifest_text := "manifest".toList
  runtime_text := "runtime".toList
  packages := []
  project_root_valid := hproject
  generation_root_valid := hroot
  count_bounded := Nat.zero_le _
  lock_hashed := rfl
  paths_canonical := no_packages_placed manager transaction
  keys_valid := no_packages_keyed
  compiler_valid := by decide

section Bare

variable (transaction : ExecutionId) (hproject : valid_absolute_path manager.project_root = true)
  (hroot : valid_absolute_path (manager.generation_root transaction) = true)

theorem bare_generation_location :
    valid_location manager (bare_generation manager transaction hproject hroot) = true :=
  valid_location_iff.mpr ⟨rfl, path_eq_self _, path_eq_self _⟩

/-- Its files can be read: the paths in them are bounded. -/
theorem bare_generation_small (file : GenerationFile) :
    byte_len (generation_text (bare_generation manager transaction hproject hroot) file) ≤
      MAX_RECORD_BYTES := by
  unfold MAX_RECORD_BYTES
  cases file with
  | leanbun_lock => exact (by decide : byte_len "lock".toList ≤ 2 * 1024 * 1024)
  | lake_manifest => exact (by decide : byte_len "manifest".toList ≤ 2 * 1024 * 1024)
  | runtime_packages => exact (by decide : byte_len "runtime".toList ≤ 2 * 1024 * 1024)
  | generation_meta =>
    have htoolchain : byte_len (hex (as_bytes "leanprover/lean4:v4.0.0".toList)) ≤ 4096 := by
      decide
    have hgithash : byte_len "0123456789012345678901234567890123456789".toList ≤ 4096 := by decide
    have hversion : byte_len (hex (as_bytes "5.0.0".toList)) ≤ 4096 := by decide
    exact metadata_small (g := bare_generation manager transaction hproject hroot) rfl rfl
      htoolchain hgithash hversion

/-- **A project without packages** is published, or its active record is renamed and
cannot be read back. -/
theorem publish_bare (objects : ObjectTrees) (hfree : s.lock = none)
    (hfresh : s.transactions transaction = none) (habsent : s.generations transaction = none) :
    Prog.Holds Anywhere
      (fun result s' => result = outcome (bare_generation manager transaction hproject hroot) .Published ∧
        ∃ text, Retains s (bare_generation manager transaction hproject hroot) text ∧
        s' = renamed s (bare_generation manager transaction hproject hroot) .Published
          (some (bare_directory (bare_generation manager transaction hproject hroot))) (some text) none)
      (fun _ s' => s'.active = some (active_text (bare_generation manager transaction hproject hroot)) ∧
        ¬(clean_value (manager.generation_root transaction) = true ∧
          fits s (bare_generation manager transaction hproject hroot)))
      (publish manager objects (bare_generation manager transaction hproject hroot) .None) s :=
  publish_progress (bare_generation_location transaction hproject hroot) hfree hfresh habsent
    (materializes_bare objects rfl (bare_generation_small transaction hproject hroot))

end Bare

/-! ## Samples -/

/-- A store without objects. -/
def no_objects : ObjectTrees := ⟨fun _ => .error "no object", fun _ => none⟩

def first_transaction : ExecutionId := ⟨"00000000-0000-4000-8000-000000000001".toList, by decide⟩

def second_transaction : ExecutionId := ⟨"00000000-0000-4000-8000-000000000002".toList, by decide⟩

def sample_manager : LeanGenerationManagerV1 := ⟨"/state".toList, "/project".toList⟩

theorem sample_project_valid : valid_absolute_path sample_manager.project_root = true := by decide

theorem first_root_valid :
    valid_absolute_path (sample_manager.generation_root first_transaction) = true := by
  decide +kernel

theorem second_root_valid :
    valid_absolute_path (sample_manager.generation_root second_transaction) = true := by
  decide +kernel

def first_generation : LeanBunGenerationV1 :=
  bare_generation sample_manager first_transaction sample_project_valid first_root_valid

def second_generation : LeanBunGenerationV1 :=
  bare_generation sample_manager second_transaction sample_project_valid second_root_valid

/-- The two generations have different digests. -/
theorem distinct_identities : second_generation.identity ≠ first_generation.identity := by
  unfold LeanBunGenerationV1.identity generation_identity_bytes LeanBunGenerationV1.project_id
    project_id first_generation second_generation bare_generation
  simp only [digest_eq_evaluate]
  decide +kernel

end LeanBun.Generation
