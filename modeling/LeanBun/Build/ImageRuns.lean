/-
Publishing calls and recoveries of one image at the same time.

The object of a key is complete from the moment it is there. The staging directory only
grows until it is renamed: a file that is there stays there, and a whole record stays whole.
So what a call has found or done in the staging directory is still so at its rename, unless
there is an object by then, and over an object the rename fails.
-/
import LeanBun.Build.ImageStore

set_option autoImplicit false

namespace LeanBun.Build.Images

open LeanBun.Lib LeanBun.Core
open LeanBun.Generation (PathBuf path_components)

/-! ## The entry at any time -/

section Entry

variable (image : BuildImageV1)

/-- The record of the image in `image.meta`. -/
def record : List UInt8 := as_bytes (record_bytes image)

/-- What `hash_file` and the comparison with the image ask of an artifact. -/
structure Right (bytes : List UInt8) : Prop where
  bounded : bytes.length ≤ MAX_ARTIFACT_BYTES
  digest : digest bytes = image.dependency_artifact_sha256

/-- A directory with the right artifact and the record. -/
structure Complete (d : ImageDirectory) : Prop where
  artifact : ∃ bytes, d.artifact = some bytes ∧ Right image bytes
  metadata : d.metadata = some (record image)

/-- No wrong artifact is staged, and an object is complete. -/
structure Sound (s : ImageEntry) : Prop where
  staging : ∀ d bytes, s.staging = some d → d.artifact = some bytes → Right image bytes
  object : ∀ d, s.object = some d → Complete image d

/-- The directory later: its files are there, and the record is whole once it was. -/
structure Follows (d d' : ImageDirectory) : Prop where
  serial : d'.serial = d.serial
  artifact : d.artifact.isSome → d'.artifact.isSome
  metadata : d.metadata.isSome → d'.metadata.isSome
  written : d.metadata = some (record image) → d'.metadata = some (record image)

/-- An object stays, and as long as there is none so does the staging directory. -/
structure Grows (s s' : ImageEntry) : Prop where
  object : s'.object = none → s.object = none
  staging : s'.object = none → ∀ d, s.staging = some d →
    ∃ d', s'.staging = some d' ∧ Follows image d d'

/-- There is a staging directory with `P`, unless it has become the object. -/
def Staged (P : ImageDirectory → Prop) (s : ImageEntry) : Prop :=
  s.object = none → ∃ d, s.staging = some d ∧ P d

end Entry

variable {image : BuildImageV1}

theorem Follows.refl (d : ImageDirectory) : Follows image d d := ⟨rfl, id, id, id⟩

/-- A step that touches neither the staging directory nor the object. -/
def Quiet (_ : ImageStep) (s s' : ImageEntry) : Prop :=
  s'.staging = s.staging ∧ s'.object = s.object

theorem Quiet.sound {label : ImageStep} {s s' : ImageEntry} (h : Quiet label s s')
    (hs : Sound image s) : Sound image s' := by
  obtain ⟨hstaging, hobject⟩ := h
  constructor
  · rw [hstaging]
    exact hs.staging
  · rw [hobject]
    exact hs.object

theorem Quiet.grows {label : ImageStep} {s s' : ImageEntry} (h : Quiet label s s') :
    Grows image s s' := by
  obtain ⟨hstaging, hobject⟩ := h
  constructor
  · rw [hobject]
    exact id
  · rw [hstaging]
    exact fun _ d hd => ⟨d, hd, .refl d⟩

theorem Grows.refl (s : ImageEntry) : Grows image s s := ⟨id, fun _ d hd => ⟨d, hd, .refl d⟩⟩

/-- What is kept of a directory is kept of the staging directory. -/
theorem stable_staged {P : ImageDirectory → Prop}
    (h : ∀ d d', Follows image d d' → P d → P d') : Prog.Stable (Grows image) (Staged P) := by
  intro s s' hgrows hs hobject
  obtain ⟨d, hd, hp⟩ := hs (hgrows.object hobject)
  obtain ⟨d', hd', hfollows⟩ := hgrows.staging hobject d hd
  exact ⟨d', hd', h d d' hfollows hp⟩

theorem stable_fact {fact : Prop} : Prog.Stable (Grows image) fun _ => fact := fun _ _ _ h => h

/-! ## What a call does, whatever the others do -/

/-- A call on an entry that stays sound. -/
abbrev Calls {α : Type} (image : BuildImageV1) (P : ImageEntry → Prop) (p : ImageProg α)
    (Q : α → ImageEntry → Prop) : Prop :=
  Prog.Does (fun l s => System.AnyStep l s ∧ Sound image s) (Grows image)
    (fun _ s s' => Sound image s' ∧ Grows image s s') P p Q fun _ _ => True

/-- Steps that touch neither directory are fine at any time. -/
theorem calls_quiet {α : Type} {p : ImageProg α} (h : p.Steps Quiet) :
    Calls image (fun _ => True) p fun _ _ => True := by
  apply Prog.does_of_steps h
  rintro _ s s' ⟨-, hs⟩ hquiet
  exact ⟨hquiet.sound hs, hquiet.grows⟩

/-- A look at the files. -/
theorem calls_look {α : Type} {f : ImageEntry → Except BuildError α} {P : ImageEntry → Prop}
    {Q : α → ImageEntry → Prop} (hP : Prog.Stable (Grows image) P)
    (hQ : ∀ a, Prog.Stable (Grows image) (Q a)) (h : ∀ s a, P s → f s = .ok a → Q a s) :
    Calls image P (Prog.read .Look f) Q := by
  apply Prog.does_atomic hP hQ (fun _ => stable_fact)
  rintro s hp ⟨-, hs⟩
  refine ⟨⟨hs, Grows.refl s⟩, ?_⟩
  cases hf : f s with
  | ok a => exact h s a hp hf
  | error e => exact trivial

/-- A check without a step. -/
theorem calls_check {α : Type} {x : Except BuildError α} {P : ImageEntry → Prop}
    {Q : α → ImageEntry → Prop} (hP : Prog.Stable (Grows image) P)
    (h : ∀ s a, P s → x = .ok a → Q a s) : Calls image P (Prog.lift x) Q := by
  apply Prog.does_lift hP
  intro s hp
  cases hx : x with
  | ok a => exact h s a hp hx
  | error e => exact trivial

/-- One step: a failure leaves both directories, a success is followed up. -/
theorem calls_step {α : Type} {label : ImageStep} {f : ImageEntry → Except BuildError α × ImageEntry}
    {P : ImageEntry → Prop} {Q : α → ImageEntry → Prop} (hP : Prog.Stable (Grows image) P)
    (hQ : ∀ a, Prog.Stable (Grows image) (Q a)) (herror : ∀ s e t, f s = (.error e, t) → t = s)
    (h : ∀ s a t, P s → Sound image s → f s = (.ok a, t) →
      Sound image t ∧ Grows image s t ∧ Q a t) : Calls image P (image_step label f) Q := by
  apply Prog.does_atomic hP hQ (fun _ => stable_fact)
  rintro s hp ⟨-, hs⟩
  cases hf : f s with
  | mk result t =>
    cases result with
    | ok a =>
      obtain ⟨hsound, hgrows, hq⟩ := h s a t hp hs hf
      exact ⟨⟨hsound, hgrows⟩, hq⟩
    | error e =>
      rw [herror s e t hf]
      exact ⟨⟨hs, Grows.refl s⟩, trivial⟩

/-! ## The steps -/

/-- A staging directory of one's own is empty. -/
theorem calls_create_staging :
    Calls image (fun _ => True) create_staging fun _ => Staged fun _ => True := by
  apply calls_step stable_fact (fun _ => stable_staged fun _ _ _ h => h)
  · intro s e t h
    split at h
    · exact (Prod.mk.inj h).2.symm
    · exact absurd (Prod.mk.inj h).1 (by simp)
  · intro s a t _ hs h
    split at h
    · exact absurd (Prod.mk.inj h).1 (by simp)
    · rename_i hnone
      rw [← (Prod.mk.inj h).2]
      refine ⟨⟨?_, hs.object⟩, ⟨id, ?_⟩, fun _ => ⟨_, rfl, trivial⟩⟩
      · intro d bytes hd hbytes
        rw [← Option.some.inj hd] at hbytes
        exact absurd hbytes (by simp)
      · intro _ d hd
        rw [hd] at hnone
        exact absurd rfl hnone

/-- The staged artifact is the one that was checked. -/
theorem calls_copy_artifact {bytes : List UInt8} (hright : Right image bytes) :
    Calls image (Staged fun _ => True) (copy_artifact bytes)
      fun _ => Staged fun d => d.artifact.isSome := by
  apply calls_step (stable_staged fun _ _ _ h => h) (fun _ => stable_staged fun _ _ h => h.artifact)
  · intro s e t h
    split at h
    · exact (Prod.mk.inj h).2.symm
    · exact absurd (Prod.mk.inj h).1 (by simp)
  · intro s a t _ hs h
    split at h
    · exact absurd (Prod.mk.inj h).1 (by simp)
    · rename_i d hd
      rw [← (Prod.mk.inj h).2]
      refine ⟨⟨?_, hs.object⟩, ⟨id, ?_⟩, fun _ => ⟨_, rfl, rfl⟩⟩
      · intro d' staged hd' hstaged
        rw [← Option.some.inj hd'] at hstaged
        rw [← Option.some.inj hstaged]
        exact hright
      · intro _ d' hd'
        rw [Option.some.inj (hd'.symm.trans hd)]
        exact ⟨_, rfl, rfl, fun _ => rfl, id, id⟩

/-- A directory with an artifact, in which the call itself has created `image.meta`. -/
structure Opened (serial : ℕ) (d : ImageDirectory) : Prop where
  artifact : d.artifact.isSome
  metadata : d.metadata.isSome
  serial : d.serial = serial

theorem stable_opened (serial : ℕ) : Prog.Stable (Grows image) (Staged (Opened serial)) := by
  apply stable_staged
  intro d d' hfollows h
  exact ⟨hfollows.artifact h.artifact, hfollows.metadata h.metadata,
    hfollows.serial.trans h.serial⟩

theorem calls_create_metadata :
    Calls image (Staged fun d => d.artifact.isSome) create_metadata
      fun serial => Staged (Opened serial) := by
  apply calls_step (stable_staged fun _ _ h => h.artifact) stable_opened
  · intro s e t h
    split at h
    · exact (Prod.mk.inj h).2.symm
    · split at h
      · exact (Prod.mk.inj h).2.symm
      · exact absurd (Prod.mk.inj h).1 (by simp)
  · intro s a t hstaged hs h
    split at h
    · exact absurd (Prod.mk.inj h).1 (by simp)
    · rename_i d hd
      split at h
      · exact absurd (Prod.mk.inj h).1 (by simp)
      · rename_i hnone
        obtain ⟨hserial, ht⟩ := Prod.mk.inj h
        rw [← ht]
        refine ⟨⟨?_, hs.object⟩, ⟨id, ?_⟩, ?_⟩
        · intro d' bytes hd' hbytes
          rw [← Option.some.inj hd'] at hbytes
          exact hs.staging d bytes hd hbytes
        · intro _ d' hd'
          rw [Option.some.inj (hd'.symm.trans hd)]
          refine ⟨_, rfl, rfl, id, fun _ => rfl, ?_⟩
          intro hwritten
          rw [hwritten] at hnone
          exact absurd rfl hnone
        · intro hobject
          obtain ⟨d', hd', hartifact⟩ := hstaged hobject
          rw [Option.some.inj (hd'.symm.trans hd)] at hartifact
          exact ⟨_, rfl, hartifact, rfl, Except.ok.inj hserial⟩

theorem ImageDirectory.write_artifact (serial : ℕ) (bytes : List UInt8) (d : ImageDirectory) :
    (d.write serial bytes).artifact = d.artifact := by
  unfold ImageDirectory.write
  split <;> rfl

/-- Writing the record to a directory leaves it as good as it was. -/
theorem follows_write (serial : ℕ) (d : ImageDirectory) :
    Follows image d (d.write serial (record image)) := by
  unfold ImageDirectory.write
  split
  · exact ⟨rfl, id, fun _ => rfl, fun _ => rfl⟩
  · exact .refl d

/-- What a directory needs to become the object. -/
structure Ready (image : BuildImageV1) (d : ImageDirectory) : Prop where
  artifact : d.artifact.isSome
  metadata : d.metadata = some (record image)

theorem stable_ready : Prog.Stable (Grows image) (Staged (Ready image)) := by
  apply stable_staged
  intro d d' hfollows h
  exact ⟨hfollows.artifact h.artifact, hfollows.written h.metadata⟩

/-- The record goes to the directory in which it was opened, be it the object by now. -/
theorem calls_write_metadata (serial : ℕ) :
    Calls image (Staged (Opened serial)) (write_metadata serial (record image))
      fun _ => Staged (Ready image) := by
  apply Prog.does_atomic (stable_opened serial) (fun _ => stable_ready) (fun _ => stable_fact)
  rintro s hstaged ⟨-, hs⟩
  refine ⟨⟨⟨?_, ?_⟩, ⟨?_, ?_⟩⟩, ?_⟩
  · intro d bytes hd hbytes
    obtain ⟨d', hd', hwrite⟩ := Option.map_eq_some_iff.mp hd
    rw [← hwrite, ImageDirectory.write_artifact] at hbytes
    exact hs.staging d' bytes hd' hbytes
  · intro d hd
    obtain ⟨d', hd', hwrite⟩ := Option.map_eq_some_iff.mp hd
    obtain ⟨hartifact, hmetadata⟩ := hs.object d' hd'
    rw [← hwrite]
    constructor
    · rw [ImageDirectory.write_artifact]
      exact hartifact
    · exact (follows_write serial d').written hmetadata
  · exact Option.map_eq_none_iff.mp
  · intro _ d hd
    exact ⟨_, Option.map_eq_some_iff.mpr ⟨d, hd, rfl⟩, follows_write serial d⟩
  · intro hobject
    obtain ⟨d, hd, hopened⟩ := hstaged (Option.map_eq_none_iff.mp hobject)
    refine ⟨_, Option.map_eq_some_iff.mpr ⟨d, hd, rfl⟩, ?_, ?_⟩
    · rw [ImageDirectory.write_artifact]
      exact hopened.artifact
    · unfold ImageDirectory.write
      rw [if_pos hopened.serial]

/-- The rename makes a complete object, or fails. -/
theorem calls_rename_staging :
    Calls image (Staged (Ready image)) rename_staging fun _ _ => True := by
  apply calls_step stable_ready (fun _ => stable_fact)
  · intro s e t h
    split at h
    · exact (Prod.mk.inj h).2.symm
    · split at h
      · exact (Prod.mk.inj h).2.symm
      · exact absurd (Prod.mk.inj h).1 (by simp)
  · intro s a t hstaged hs h
    split at h
    · exact absurd (Prod.mk.inj h).1 (by simp)
    · rename_i d hd
      split at h
      · exact absurd (Prod.mk.inj h).1 (by simp)
      · rename_i hempty
        -- an object that is there is complete, so the rename would have failed
        have hobject : s.object = none := by
          cases hobject : s.object with
          | none => rfl
          | some o =>
            obtain ⟨⟨bytes, hbytes, -⟩, -⟩ := hs.object o hobject
            rw [hobject] at hempty
            simp [hbytes] at hempty
        obtain ⟨d', hd', hready⟩ := hstaged hobject
        rw [Option.some.inj (hd'.symm.trans hd)] at hready
        obtain ⟨bytes, hbytes⟩ := Option.isSome_iff_exists.mp hready.artifact
        rw [← (Prod.mk.inj h).2]
        refine ⟨⟨?_, ?_⟩, ⟨?_, ?_⟩, trivial⟩
        · exact fun _ _ hnone => absurd hnone (by simp)
        · intro o ho
          rw [← Option.some.inj ho]
          exact ⟨⟨bytes, hbytes, hs.staging d bytes hd hbytes⟩, hready.metadata⟩
        · exact fun hnone => absurd hnone (by simp)
        · exact fun hnone => absurd hnone (by simp)

/-! ## The calls -/

theorem quiet_look {α : Type} (f : ImageEntry → Except BuildError α) :
    (Prog.read .Look f : ImageProg α).Steps Quiet := Prog.steps_read fun _ => ⟨rfl, rfl⟩

theorem quiet_verify_record (place : Place) (image : BuildImageV1) :
    (verify_record place image).Steps Quiet :=
  (quiet_look _).bind fun _ => Prog.steps_lift

theorem quiet_hash_file (place : Place) : (hash_file place).Steps Quiet := by
  apply (quiet_look _).bind
  intro found
  apply Prog.steps_lift.bind
  intro _
  exact (quiet_look _).bind fun _ => Prog.steps_pure

theorem quiet_verify (image : BuildImageV1) : (verify image).Steps Quiet := by
  apply (quiet_verify_record _ image).bind
  intro _
  apply (quiet_hash_file _).bind
  intro actual
  exact Prog.steps_lift.bind fun _ => Prog.steps_pure

theorem quiet_create_lock : create_lock.Steps Quiet := by
  apply Prog.steps_atomic
  intro s
  by_cases h : s.lock = true <;> simp [h, Quiet]

theorem quiet_write_lock : write_lock.Steps Quiet := Prog.steps_write fun _ => ⟨rfl, rfl⟩

theorem quiet_remove_lock : remove_lock.Steps Quiet := by
  apply Prog.steps_atomic
  intro s
  by_cases h : s.lock = true <;> simp [h, Quiet]

/-- The rest of a call when the object is there. -/
theorem calls_rename_rest {p : ImageProg ReuseOutcomeV1} (h : p.Steps Quiet) :
    Calls image (Staged (Ready image)) (rename_staging >>= fun _ => p) fun _ _ => True :=
  calls_rename_staging.bind fun _ => calls_quiet h

theorem calls_publish_new {bytes : List UInt8} (hright : Right image bytes) :
    Calls image (fun _ => True) (publish_new image bytes) fun _ _ => True := by
  unfold publish_new
  apply (calls_quiet quiet_create_lock).bind
  intro _
  apply (calls_quiet quiet_write_lock).bind
  intro _
  apply (calls_quiet (quiet_look _)).bind
  intro found
  split
  · exact calls_quiet Prog.steps_lift
  · apply calls_create_staging.bind
    intro _
    apply (calls_copy_artifact hright).bind
    intro _
    apply calls_create_metadata.bind
    intro serial
    apply (calls_write_metadata serial).bind
    intro _
    apply calls_rename_rest
    apply quiet_remove_lock.bind
    intro _
    exact (quiet_verify_record _ image).bind fun _ => Prog.steps_pure

/-- What the checks in front accept. -/
theorem check_artifact_eq_ok {store : BuildImageStoreV1} {artifact : PathBuf} {bytes : List UInt8}
    (h : store.check_artifact image artifact = .ok bytes) : Right image bytes := by
  unfold BuildImageStoreV1.check_artifact at h
  split at h
  · exact absurd h (by simp)
  · obtain ⟨_, -, h⟩ := bind_eq_ok.mp h
    obtain ⟨_, hbounded, h⟩ := bind_eq_ok.mp h
    obtain ⟨_, hdigest, h⟩ := bind_eq_ok.mp h
    have hbytes := Except.ok.inj h
    subst hbytes
    exact ⟨ensure_eq_ok hbounded, ensure_eq_ok hdigest⟩

theorem calls_publish_or_reuse (store : BuildImageStoreV1) (artifact : PathBuf) :
    Calls image (fun _ => True) (store.publish_or_reuse image artifact) fun _ _ => True := by
  unfold BuildImageStoreV1.publish_or_reuse
  have hcheck : Calls image (fun _ => True) (Prog.lift (store.check_artifact image artifact))
      fun bytes _ => Right image bytes :=
    calls_check stable_fact fun _ _ _ h => check_artifact_eq_ok h
  apply hcheck.bind
  intro bytes
  refine (Prog.does_of_fact (P := fun _ => True) fun hright => ?_).weaken (fun _ h => ⟨trivial, h⟩)
    (fun _ _ h => h) (fun _ _ h => h)
  apply (calls_quiet (quiet_look _)).bind
  intro found
  split
  · exact calls_quiet ((quiet_verify_record _ image).bind fun _ => Prog.steps_pure)
  · exact calls_publish_new hright

/-- An artifact that could be hashed is there. -/
theorem calls_hash_staging :
    Calls image (fun _ => True) (hash_file ImageEntry.staging)
      fun _ => Staged fun d => d.artifact.isSome := by
  have hartifact : Prog.Stable (Grows image) (Staged fun d => d.artifact.isSome) :=
    stable_staged fun _ _ h => h.artifact
  apply Prog.Does.bind (M := fun _ => Staged fun d => d.artifact.isSome)
  · apply calls_look stable_fact (fun _ => hartifact)
    intro s found _ h _
    unfold file_at at h
    split at h
    · exact absurd h (by simp)
    · rename_i bytes hbytes
      obtain ⟨d, hd, hfound⟩ := Option.bind_eq_some_iff.mp hbytes
      exact ⟨d, hd, Option.isSome_iff_exists.mpr ⟨_, hfound⟩⟩
  intro found
  apply (calls_check hartifact fun _ _ h _ => h).bind
  intro _
  apply (calls_look hartifact (fun _ => hartifact) fun _ _ h _ => h).bind
  intro bytes
  exact Prog.does_pure hartifact fun _ h => h

/-- A record that was accepted is whole. -/
theorem check_record_eq_ok {bytes : List UInt8} :
    check_record image bytes = .ok () ↔ bytes = record image := by
  unfold check_record record
  cases htext : from_utf8 bytes with
  | none =>
    refine ⟨fun h => absurd h (by simp), ?_⟩
    intro h
    rw [h, from_utf8_as_bytes] at htext
    exact absurd htext (by simp)
  | some actual =>
    rw [from_utf8_eq_some] at htext
    subst htext
    rw [as_bytes_injective.eq_iff]
    by_cases h : actual = record_bytes image <;> simp [h]

theorem calls_verify_staging :
    Calls image (Staged fun d => d.artifact.isSome) (verify_record ImageEntry.staging image)
      fun _ => Staged (Ready image) := by
  have hread (bytes : List UInt8) : Prog.Stable (Grows image) (Staged fun d =>
      d.artifact.isSome ∧ (bytes = record image → d.metadata = some (record image))) := by
    apply stable_staged
    intro d d' hfollows h
    exact ⟨hfollows.artifact h.1, fun hbytes => hfollows.written (h.2 hbytes)⟩
  apply Prog.Does.bind (M := fun bytes => Staged fun d =>
    d.artifact.isSome ∧ (bytes = record image → d.metadata = some (record image)))
  · apply calls_look (stable_staged fun _ _ h => h.artifact) hread
    intro s bytes hstaged h hobject
    obtain ⟨d, hd, hartifact⟩ := hstaged hobject
    refine ⟨d, hd, hartifact, ?_⟩
    intro hbytes
    unfold file_at at h
    rw [hd] at h
    show d.metadata = some (record image)
    cases hmetadata : d.metadata with
    | none => simp [hmetadata] at h
    | some found =>
      simp only [Option.bind_some, hmetadata] at h
      rw [Except.ok.inj h, hbytes]
  · intro bytes
    apply calls_check (hread bytes)
    intro s _ hstaged h hobject
    obtain ⟨d, hd, hartifact, hmetadata⟩ := hstaged hobject
    exact ⟨d, hd, hartifact, hmetadata (check_record_eq_ok.mp h)⟩

theorem calls_complete_metadata :
    Calls image (Staged fun d => d.artifact.isSome) (complete_metadata image)
      fun _ => Staged (Ready image) := by
  have hartifact : Prog.Stable (Grows image) (Staged fun d => d.artifact.isSome) :=
    stable_staged fun _ _ h => h.artifact
  apply (calls_look hartifact (fun _ => hartifact) fun _ _ h _ => h).bind
  intro found
  split
  · exact calls_verify_staging
  · exact calls_create_metadata.bind calls_write_metadata

theorem calls_recover_staging :
    Calls image (fun _ => True) (recover_staging image) fun _ _ => True := by
  have hartifact : Prog.Stable (Grows image) (Staged fun d => d.artifact.isSome) :=
    stable_staged fun _ _ h => h.artifact
  unfold recover_staging
  apply calls_hash_staging.bind
  intro actual
  apply (calls_check hartifact fun _ _ h _ => h).bind
  intro _
  apply calls_complete_metadata.bind
  intro _
  apply calls_rename_rest
  apply quiet_remove_lock.bind
  intro _
  exact (quiet_verify image).bind fun _ => Prog.steps_pure

theorem calls_recover : Calls image (fun _ => True) (recover image) fun _ _ => True := by
  unfold recover
  apply (calls_quiet (quiet_look _)).bind
  intro object
  split
  · apply calls_quiet
    apply (quiet_verify image).bind
    intro _
    apply (quiet_look _).bind
    intro lock
    split
    · exact quiet_remove_lock.bind fun _ => Prog.steps_pure
    · exact Prog.steps_pure
  · apply (calls_quiet (quiet_look _)).bind
    intro lock
    split
    · apply (calls_quiet (quiet_look _)).bind
      intro staging
      split
      · exact calls_recover_staging
      · exact calls_quiet (quiet_remove_lock.bind fun _ => Prog.steps_pure)
    · exact calls_quiet Prog.steps_lift

end LeanBun.Build.Images
