/-
What a stopped publication leaves, and what a recovery makes of it.

A recovery can finish a staging directory that has the artifact and either no record or the
whole one. A publication leaves anything else only right after two of its steps: when the
directory is there but not yet the artifact, and when `image.meta` is there but empty. Then
the recovery fails, and goes on failing.
-/
import LeanBun.Build.ImageRuns
import LeanBun.Lib.Cuts

set_option autoImplicit false

namespace LeanBun.Build.Images

open LeanBun.Lib LeanBun.Core
open LeanBun.Generation (PathBuf path_components)

/-! ## Undisturbed runs -/

section Run

variable {image : BuildImageV1} {s : ImageEntry} {d : ImageDirectory}

theorem run_look {α : Type} {f : ImageEntry → Except BuildError α} {x : Except BuildError α}
    (h : f s = x) : (Prog.read .Look f : ImageProg α).run s = (x, s) := by
  unfold Prog.read
  rw [Prog.run_atomic, h]

theorem run_lift {α : Type} (x : Except BuildError α) :
    (Prog.lift x : ImageProg α).run s = (x, s) := by
  cases x <;> rfl

theorem file_at_of_some (place : Place) {file : ImageDirectory → Option (List UInt8)}
    {bytes : List UInt8} (hplace : place s = some d) (hfile : file d = some bytes) :
    file_at place file s = .ok bytes := by
  unfold file_at
  rw [hplace, Option.bind_some, hfile]

theorem file_at_of_none (place : Place) {file : ImageDirectory → Option (List UInt8)}
    (hplace : place s = some d) (hfile : file d = none) : file_at place file s = .error io_error := by
  unfold file_at
  rw [hplace, Option.bind_some, hfile]

theorem run_verify_record (image : BuildImageV1) (place : Place) {bytes : List UInt8}
    (hplace : place s = some d)
    (hmetadata : d.metadata = some bytes) :
    (verify_record place image).run s = (check_record image bytes, s) := by
  unfold verify_record
  rw [Prog.run_bind_ok (run_look (file_at_of_some place hplace hmetadata)), run_lift]

theorem run_hash_file (place : Place) {bytes : List UInt8} (hplace : place s = some d)
    (hartifact : d.artifact = some bytes) (hbounded : bytes.length ≤ MAX_ARTIFACT_BYTES) :
    (hash_file place).run s = (.ok (digest bytes), s) := by
  have hread := run_look (file_at_of_some place hplace hartifact)
  unfold hash_file
  rw [Prog.run_bind_ok hread, ensure_ok hbounded]
  exact Prog.run_bind_ok hread

/-- A complete object passes the verification. -/
theorem run_verify (hobject : s.object = some d) (hcomplete : Complete image d) :
    (verify image).run s = (.ok (), s) := by
  obtain ⟨⟨bytes, hartifact, hright⟩, hmetadata⟩ := hcomplete
  have hrecord := run_verify_record image ImageEntry.object hobject hmetadata
  rw [check_record_eq_ok.mpr rfl] at hrecord
  unfold verify
  rw [Prog.run_bind_ok hrecord,
    Prog.run_bind_ok (run_hash_file ImageEntry.object hobject hartifact hright.bounded),
    ensure_ok hright.digest]
  rfl

end Run

/-! ## Recovering -/

section Recovering

variable {image : BuildImageV1}

/-- What a recovery can finish. -/
structure Recoverable (image : BuildImageV1) (d : ImageDirectory) : Prop where
  artifact : ∃ bytes, d.artifact = some bytes ∧ Right image bytes
  metadata : d.metadata = none ∨ d.metadata = some (record image)

theorem run_step {α : Type} {label : ImageStep} {f : ImageEntry → Except BuildError α × ImageEntry}
    (s : ImageEntry) : (image_step label f).run s = f s := Prog.run_atomic _ _ s

theorem recover_nothing (k : ℕ) :
    (recover image).run ⟨true, none, none, k⟩ = (.ok .Aborted, ⟨false, none, none, k⟩) := rfl

/-- An object is left, and the lock goes. -/
theorem recover_object {o : ImageDirectory} (hcomplete : Complete image o) (lock : Bool) (k : ℕ) :
    (recover image).run ⟨lock, none, some o, k⟩ = (.ok .Reused, ⟨false, none, some o, k⟩) := by
  show (verify image >>= _).run _ = _
  rw [Prog.run_bind_ok (run_verify rfl hcomplete)]
  cases lock <;> rfl

/-- The record of a staging directory, after it has been checked or written. -/
theorem run_complete_metadata {d : ImageDirectory} (lock : Bool) (k : ℕ) :
    (d.metadata = none ∨ d.metadata = some (record image) →
      (complete_metadata image).run ⟨lock, some d, none, k⟩ =
        (.ok (), ⟨lock, some { d with metadata := some (record image) }, none, k⟩)) ∧
    (¬(d.metadata = none ∨ d.metadata = some (record image)) →
      ∃ e t, (complete_metadata image).run ⟨lock, some d, none, k⟩ = (.error e, t)) := by
  obtain ⟨serial, artifact, metadata⟩ := d
  cases metadata with
  | none =>
    refine ⟨fun _ => ?_, fun h => absurd (.inl rfl) h⟩
    show (write_metadata serial (record image)).run _ = _
    unfold write_metadata Prog.write
    rw [Prog.run_atomic]
    simp [ImageDirectory.write]
  | some bytes =>
    have hrun : (complete_metadata image).run ⟨lock, some ⟨serial, artifact, some bytes⟩, none, k⟩ =
        (check_record image bytes, ⟨lock, some ⟨serial, artifact, some bytes⟩, none, k⟩) := by
      unfold complete_metadata
      rw [Prog.run_bind_ok (b := true) (run_look rfl)]
      exact run_verify_record image ImageEntry.staging rfl rfl
    rw [hrun]
    constructor
    · intro h
      have hbytes : bytes = record image := by simpa using h
      rw [check_record_eq_ok.mpr hbytes, hbytes]
    · intro h
      have hbytes : bytes ≠ record image := by simpa using h
      cases hcheck : check_record image bytes with
      | ok u => exact absurd (check_record_eq_ok.mp hcheck) hbytes
      | error e => exact ⟨e, _, rfl⟩

/-- **A staging directory is recovered** when it is recoverable. -/
theorem recover_staged {d : ImageDirectory} (h : Recoverable image d) (k : ℕ) :
    ∃ o, Complete image o ∧ (recover image).run ⟨true, some d, none, k⟩ =
      (.ok .Published, ⟨false, none, some o, k⟩) := by
  obtain ⟨⟨bytes, hartifact, hright⟩, hmetadata⟩ := h
  have hcomplete : Complete image { d with metadata := some (record image) } :=
    ⟨⟨bytes, hartifact, hright⟩, rfl⟩
  refine ⟨_, hcomplete, ?_⟩
  show (recover_staging image).run _ = _
  unfold recover_staging
  rw [Prog.run_bind_ok (run_hash_file ImageEntry.staging rfl hartifact hright.bounded),
    ensure_ok hright.digest]
  show (complete_metadata image >>= _).run _ = _
  rw [Prog.run_bind_ok ((run_complete_metadata true k).1 hmetadata)]
  show (verify image >>= _).run _ = _
  rw [Prog.run_bind_ok (run_verify rfl hcomplete)]
  rfl

/-- **Otherwise the recovery fails.** -/
theorem recover_stuck {d : ImageDirectory} (h : ¬Recoverable image d) (k : ℕ) :
    ∃ e t, (recover image).run ⟨true, some d, none, k⟩ = (.error e, t) := by
  show ∃ e t, (recover_staging image).run _ = (.error e, t)
  unfold recover_staging
  cases hartifact : d.artifact with
  | none =>
    have hread : (hash_file ImageEntry.staging).run ⟨true, some d, none, k⟩ =
        (.error io_error, ⟨true, some d, none, k⟩) := by
      unfold hash_file
      exact Prog.run_bind_error
        (run_look (file_at_of_none ImageEntry.staging rfl hartifact))
    exact ⟨_, _, Prog.run_bind_error hread⟩
  | some bytes =>
    by_cases hbounded : bytes.length ≤ MAX_ARTIFACT_BYTES
    · rw [Prog.run_bind_ok (run_hash_file ImageEntry.staging rfl hartifact hbounded)]
      by_cases hdigest : digest bytes = image.dependency_artifact_sha256
      · rw [ensure_ok hdigest]
        have hmetadata : ¬(d.metadata = none ∨ d.metadata = some (record image)) :=
          fun hmetadata => h ⟨⟨bytes, hartifact, hbounded, hdigest⟩, hmetadata⟩
        obtain ⟨e, t, hrun⟩ := (run_complete_metadata true k).2 hmetadata
        refine ⟨e, t, ?_⟩
        show (complete_metadata image >>= _).run _ = _
        exact Prog.run_bind_error hrun
      · rw [ensure_error hdigest]
        exact ⟨_, _, rfl⟩
    · have hread : (hash_file ImageEntry.staging).run ⟨true, some d, none, k⟩ =
          (.error ⟨.InvalidField, "bounded regular file required"⟩, ⟨true, some d, none, k⟩) := by
        unfold hash_file
        rw [Prog.run_bind_ok (run_look (file_at_of_some ImageEntry.staging rfl hartifact)),
          ensure_error hbounded]
        rfl
      exact ⟨_, _, Prog.run_bind_error hread⟩

end Recovering

/-! ## Publishing again -/

section Publishing

variable {store : BuildImageStoreV1} {image : BuildImageV1} {artifact : PathBuf}
  {bytes : List UInt8}

/-- A call goes on after the checks of its artifact. -/
theorem publish_of_check (hcheck : store.check_artifact image artifact = .ok bytes) :
    store.publish_or_reuse image artifact = (do
      if ← place_exists ImageEntry.object then do
        verify_record ImageEntry.object image
        return .Reused
      else publish_new image bytes) := by
  unfold BuildImageStoreV1.publish_or_reuse
  rw [hcheck]
  rfl

theorem publish_reuses (hcheck : store.check_artifact image artifact = .ok bytes)
    {s : ImageEntry} {o : ImageDirectory} (hobject : s.object = some o)
    (hcomplete : Complete image o) :
    (store.publish_or_reuse image artifact).run s = (.ok .Reused, s) := by
  have hlook : (place_exists ImageEntry.object).run s = (.ok true, s) :=
    run_look (by rw [hobject, Option.isSome_some])
  have hrecord :=
    run_verify_record image ImageEntry.object hobject hcomplete.metadata
  rw [check_record_eq_ok.mpr rfl] at hrecord
  rw [publish_of_check hcheck, Prog.run_bind_ok hlook, if_pos rfl, Prog.run_bind_ok hrecord]
  rfl

/-- The directory a publication fills. -/
def filled (image : BuildImageV1) (bytes : List UInt8) (k : ℕ) : ImageDirectory :=
  ⟨k, some bytes, some (record image)⟩

theorem publish_publishes (hcheck : store.check_artifact image artifact = .ok bytes) (k : ℕ) :
    (store.publish_or_reuse image artifact).run ⟨false, none, none, k⟩ =
      (.ok .Published, ⟨false, none, some (filled image bytes k), k + 1⟩) := by
  have hwritten : ImageDirectory.write k (record image) ⟨k, some bytes, some []⟩ =
      filled image bytes k := if_pos rfl
  rw [publish_of_check hcheck]
  show (rename_staging >>= fun _ => remove_lock >>= fun _ =>
    verify_record ImageEntry.object image >>= fun _ => pure ReuseOutcomeV1.Published).run ⟨true,
      some (ImageDirectory.write k (record image) ⟨k, some bytes, some []⟩), none, k + 1⟩ = _
  rw [hwritten]
  have hrecord := run_verify_record image ImageEntry.object
    (s := ⟨false, none, some (filled image bytes k), k + 1⟩) rfl rfl
  rw [check_record_eq_ok.mpr rfl] at hrecord
  show (verify_record ImageEntry.object image >>= _).run
    ⟨false, none, some (filled image bytes k), k + 1⟩ = _
  rw [Prog.run_bind_ok hrecord]
  rfl

end Publishing

/-! ## Crashes -/

section Crashes

variable {store : BuildImageStoreV1} {image : BuildImageV1} {artifact : PathBuf}
  {bytes : List UInt8}

/-- The recovery returns, leaves no lock and no staging directory, and the image can then be
published or reused. -/
def Recovers (store : BuildImageStoreV1) (image : BuildImageV1) (artifact : PathBuf)
    (s : ImageEntry) : Prop :=
  ∃ outcome t, (recover image).run s = (.ok outcome, t) ∧ t.lock = false ∧ t.staging = none ∧
    ∃ outcome' u, (store.publish_or_reuse image artifact).run t = (.ok outcome', u)

theorem recovers_object (hcheck : store.check_artifact image artifact = .ok bytes)
    {o : ImageDirectory} (hcomplete : Complete image o) (lock : Bool) (k : ℕ) :
    Recovers store image artifact ⟨lock, none, some o, k⟩ :=
  ⟨_, _, recover_object hcomplete lock k, rfl, rfl, _, _, publish_reuses hcheck rfl hcomplete⟩

/-- Without an object all depends on the staging directory. -/
theorem recovers_iff (hcheck : store.check_artifact image artifact = .ok bytes)
    (staging : Option ImageDirectory) (k : ℕ) :
    Recovers store image artifact ⟨true, staging, none, k⟩ ↔
      ∀ d, staging = some d → Recoverable image d := by
  cases staging with
  | none =>
    refine ⟨fun _ d hd => absurd hd (by simp), fun _ => ?_⟩
    exact ⟨_, _, recover_nothing k, rfl, rfl, _, _, publish_publishes hcheck k⟩
  | some d =>
    constructor
    · rintro ⟨outcome, t, hrun, -⟩ d' hd'
      rw [← Option.some.inj hd']
      by_contra hstuck
      obtain ⟨e, t', hrun'⟩ := recover_stuck hstuck k
      exact absurd (Prod.mk.inj (hrun.symm.trans hrun')).1 (by simp)
    · intro h
      obtain ⟨o, hcomplete, hrun⟩ := recover_staged (h d rfl) k
      exact ⟨_, _, hrun, rfl, rfl, _, _, publish_reuses hcheck rfl hcomplete⟩

/-- The steps that changed something. -/
def done (labels : List ImageStep) : List ImageStep := labels.filter (· ≠ .Look)

/-- The last step has made a directory or a file that the next one was to fill. -/
def HalfMade (labels : List ImageStep) : Prop :=
  labels.getLast? = some .CreateStaging ∨ labels.getLast? = some .CreateMetadata

instance (labels : List ImageStep) : Decidable (HalfMade labels) :=
  inferInstanceAs (Decidable (_ ∨ _))

/-- A crash that comes after a step is recovered from, except where it left something half
made, or where a staging directory had been there before that cannot be recovered. -/
def Cut (store : BuildImageStoreV1) (image : BuildImageV1) (artifact : PathBuf)
    (found : Option ImageDirectory) (labels : List ImageStep) (s : ImageEntry) : Prop :=
  done labels ≠ [] → (Recovers store image artifact s ↔
    ¬HalfMade (done labels) ∧ ∀ d, found = some d → Recoverable image d)

theorem cut_look {found : Option ImageDirectory} {labels : List ImageStep} {s : ImageEntry}
    (h : done labels = []) : Cut store image artifact found labels s := fun hdone => absurd h hdone

/-- A crash without an object, by what is staged. -/
theorem cut_staged (hcheck : store.check_artifact image artifact = .ok bytes)
    {found staging : Option ImageDirectory} {labels : List ImageStep} {k : ℕ}
    (h : (∀ d, staging = some d → Recoverable image d) ↔
      ¬HalfMade (done labels) ∧ ∀ d, found = some d → Recoverable image d) :
    Cut store image artifact found labels ⟨true, staging, none, k⟩ :=
  fun _ => (recovers_iff hcheck staging k).trans h

/-- A crash with the object in place. -/
theorem cut_object (hcheck : store.check_artifact image artifact = .ok bytes) {o : ImageDirectory}
    (hcomplete : Complete image o) {labels : List ImageStep} (h : ¬HalfMade (done labels))
    (lock : Bool) (k : ℕ) : Cut store image artifact none labels ⟨lock, none, some o, k⟩ := by
  refine fun _ => iff_of_true (recovers_object hcheck hcomplete lock k) ⟨h, ?_⟩
  exact fun d hd => absurd hd (by simp)

/-- Nothing has been found, and what is staged now can be finished. -/
theorem cut_good (hcheck : store.check_artifact image artifact = .ok bytes) {d : ImageDirectory}
    (hd : Recoverable image d) {labels : List ImageStep} (h : ¬HalfMade (done labels)) (k : ℕ) :
    Cut store image artifact none labels ⟨true, some d, none, k⟩ := by
  apply cut_staged hcheck
  refine iff_of_true ?_ ⟨h, fun d hd => absurd hd (by simp)⟩
  intro d' hd'
  rw [← Option.some.inj hd']
  exact hd

/-- What is staged now cannot be finished. -/
theorem cut_bad (hcheck : store.check_artifact image artifact = .ok bytes) {d : ImageDirectory}
    (hd : ¬Recoverable image d) {labels : List ImageStep} (h : HalfMade (done labels)) (k : ℕ) :
    Cut store image artifact none labels ⟨true, some d, none, k⟩ := by
  apply cut_staged hcheck
  exact iff_of_false (fun hall => hd (hall d rfl)) fun hnot => hnot.1 h

theorem record_ne_nil (image : BuildImageV1) : record image ≠ [] := by
  unfold record record_bytes
  simp [as_bytes]

/-- A program that only looks is stopped where it started. -/
theorem cuts_looks {α : Type} {p : ImageProg α}
    (hp : p.Steps fun label s t => label = .Look ∧ t = s) {found : Option ImageDirectory}
    {labels : List ImageStep} {s : ImageEntry} (h : Cut store image artifact found labels s) :
    Prog.Cuts (Cut store image artifact found) p labels s := by
  intro n
  have hsame : done (labels ++ p.trace n s) = done labels ∧ p.crash n s = s := by
    apply hp.crash (M := fun ls t => done ls = done labels ∧ t = s) _ ⟨rfl, rfl⟩ n
    rintro label ls t t' ⟨hlabel, ht'⟩ ⟨hdone, ht⟩
    refine ⟨?_, ht'.trans ht⟩
    unfold done at hdone ⊢
    rw [List.filter_append, hdone, hlabel]
    simp
  unfold Cut
  rw [hsame.1, hsame.2]
  exact h

theorem looks_verify_record (place : Place) (image : BuildImageV1) (outcome : ReuseOutcomeV1) :
    (verify_record place image >>= fun _ => pure outcome).Steps
      fun label s t => label = .Look ∧ t = s := by
  apply Prog.Steps.bind
  · exact (Prog.steps_read fun _ => ⟨rfl, rfl⟩).bind fun _ => Prog.steps_lift
  · exact fun _ => Prog.steps_pure

/-- A step that goes through. -/
theorem cuts_step {α β : Type} {label : ImageStep}
    {f : ImageEntry → Except BuildError α × ImageEntry} {rest : α → ImageProg β}
    {found : Option ImageDirectory} {labels : List ImageStep} {s t : ImageEntry} {a : α}
    (h : Cut store image artifact found labels s) (hf : f s = (.ok a, t))
    (hrest : Prog.Cuts (Cut store image artifact found) (rest a) (labels ++ [label]) t) :
    Prog.Cuts (Cut store image artifact found) (image_step label f >>= rest) labels s := by
  refine Prog.Cuts.atomic_bind h hf ?_
  rw [hf]
  exact hrest

/-- As long as nothing is half made, what has been found decides. -/
theorem cut_found (hcheck : store.check_artifact image artifact = .ok bytes)
    {staging : Option ImageDirectory} {labels : List ImageStep} (h : ¬HalfMade (done labels))
    (k : ℕ) : Cut store image artifact staging labels ⟨true, staging, none, k⟩ :=
  cut_staged hcheck (and_iff_right h).symm

/-- From the new staging directory on. -/
theorem cuts_fill (hcheck : store.check_artifact image artifact = .ok bytes) (k : ℕ) :
    Prog.Cuts (Cut store image artifact none) (do
      create_staging
      copy_artifact bytes
      let serial ← create_metadata
      write_metadata serial (as_bytes (record_bytes image))
      rename_staging
      remove_lock
      verify_record ImageEntry.object image
      return ReuseOutcomeV1.Published) [.Look, .CreateLock, .WriteLock, .Look]
        ⟨true, none, none, k⟩ := by
  have hright := check_artifact_eq_ok hcheck
  have hcomplete : Complete image (filled image bytes k) := ⟨⟨bytes, rfl, hright⟩, rfl⟩
  have hempty : ¬Recoverable image ⟨k, none, none⟩ := by
    rintro ⟨⟨_, hnone, -⟩, -⟩
    exact absurd hnone (by simp)
  have hcopied : Recoverable image ⟨k, some bytes, none⟩ := ⟨⟨bytes, rfl, hright⟩, .inl rfl⟩
  have hopened : ¬Recoverable image ⟨k, some bytes, some []⟩ := by
    rintro ⟨-, hnone | hrecord⟩
    · exact absurd hnone (by simp)
    · exact record_ne_nil image (Option.some.inj hrecord).symm
  have hwritten : Recoverable image (filled image bytes k) := ⟨⟨bytes, rfl, hright⟩, .inr rfl⟩
  have hwrite : ImageDirectory.write k (record image) ⟨k, some bytes, some []⟩ =
      filled image bytes k := if_pos rfl
  refine cuts_step (t := ⟨true, some ⟨k, none, none⟩, none, k + 1⟩)
    (cut_found hcheck (by decide) k) rfl ?_
  refine cuts_step (t := ⟨true, some ⟨k, some bytes, none⟩, none, k + 1⟩)
    (cut_bad hcheck hempty (by decide) (k + 1)) rfl ?_
  refine cuts_step (t := ⟨true, some ⟨k, some bytes, some []⟩, none, k + 1⟩)
    (cut_good hcheck hcopied (by decide) (k + 1)) rfl ?_
  refine Prog.Cuts.atomic_bind (b := ()) (t := ⟨true, some (filled image bytes k), none, k + 1⟩)
    (cut_bad hcheck hopened (by decide) (k + 1)) ?_ ?_
  · rw [← hwrite]
    rfl
  refine cuts_step (t := ⟨true, none, some (filled image bytes k), k + 1⟩)
    (cut_good hcheck hwritten (by decide) (k + 1)) rfl ?_
  refine cuts_step (t := ⟨false, none, some (filled image bytes k), k + 1⟩)
    (cut_object hcheck hcomplete (by decide) true (k + 1)) rfl ?_
  -- the last look at the record changes nothing
  apply cuts_looks (looks_verify_record _ _ _)
  exact cut_object hcheck hcomplete (by decide) false (k + 1)

/-- **The crash points of a publication.** -/
theorem cuts_publish (hcheck : store.check_artifact image artifact = .ok bytes) (s : ImageEntry) :
    Prog.Cuts (Cut store image artifact s.staging) (store.publish_or_reuse image artifact) [] s := by
  rw [publish_of_check hcheck]
  obtain ⟨lock, staging, object, k⟩ := s
  refine Prog.Cuts.atomic_bind (cut_look rfl) rfl ?_
  cases object with
  | some o =>
    exact cuts_looks (looks_verify_record _ _ _) (cut_look rfl)
  | none =>
    cases lock with
    | true => exact Prog.Cuts.atomic_error (cut_look rfl) rfl (cut_look rfl)
    | false =>
      refine cuts_step (t := ⟨true, staging, none, k⟩) (cut_look rfl) rfl ?_
      refine Prog.Cuts.atomic_bind (cut_found hcheck (by decide) k) rfl ?_
      refine Prog.Cuts.atomic_bind (cut_found hcheck (by decide) k) rfl ?_
      cases staging with
      | some d => exact Prog.cuts_lift (x := .error _) (cut_found hcheck (by decide) k)
      | none => exact cuts_fill hcheck k

/-- Without an artifact to publish nothing is done. -/
theorem publish_refused {e : BuildError} (h : store.check_artifact image artifact = .error e) :
    store.publish_or_reuse image artifact = .fail e := by
  unfold BuildImageStoreV1.publish_or_reuse
  rw [h]
  rfl

end Crashes

/-! ## The calls together -/

/-- A call for the image. -/
inductive Call where
  | publish_or_reuse (artifact : PathBuf)
  | recover

/-- The program of a call. -/
def BuildImageStoreV1.call (store : BuildImageStoreV1) (image : BuildImageV1) :
    Call → ImageProg ReuseOutcomeV1
  | .publish_or_reuse artifact => store.publish_or_reuse image artifact
  | .recover => Images.recover image

/-- Calls in several processes; a process that ends leaves the files as they are. -/
def call_system {ι π : Type} (store : BuildImageStoreV1) (image : BuildImageV1) (calls : ι → Call)
    (home : ι → π) : System ι π ImageEntry ImageStep BuildError ReuseOutcomeV1 where
  program i := store.call image (calls i)
  home := home
  gone _ s := s

section Together

variable {ι π : Type} [DecidableEq ι] [DecidableEq π] {store : BuildImageStoreV1}
  {image : BuildImageV1} {calls : ι → Call} {home : ι → π}

theorem calls_call (call : Call) :
    Calls image (fun _ => True) (store.call image call) fun _ _ => True := by
  cases call with
  | publish_or_reuse artifact => exact calls_publish_or_reuse store artifact
  | recover => exact calls_recover

/-- **The entry stays sound**, whatever calls there are and wherever they stop. -/
theorem sound_run {s : ImageEntry} (hs : Sound image s)
    {pool : Pool ι ImageEntry ImageStep BuildError ReuseOutcomeV1}
    (hrun : (call_system store image calls home).Run System.AnyStep s pool) :
    Sound image pool.shared := by
  refine (System.Run.guarded (I := Sound image) (R := fun _ => Grows image)
    (G := fun _ _ s s' => Sound image s' ∧ Grows image s s')
    (Q := fun _ => Prog.ends (fun _ _ => True) fun _ _ => True) hs ?_ ?_ ?_ hrun).1
  · exact fun i => (calls_call (calls i)).guarded s trivial
  · exact fun _ _ _ _ _ _ h => ⟨h.1, fun _ _ => h.2⟩
  · exact fun _ s hs => ⟨hs, fun _ _ => Grows.refl s⟩

end Together

/-- **The store of build images.** A publication that is stopped after one of its steps is
recovered from exactly if that step did not leave the staging directory or `image.meta`
half made, and no other unfinished directory had been there before. Whatever calls there
are for an image, its object passes the verification as soon as it is there. -/
theorem image_recovered_iff (store : BuildImageStoreV1) (image : BuildImageV1) :
    (∀ (artifact : PathBuf) (s : ImageEntry) (n : ℕ),
      done ((store.publish_or_reuse image artifact).trace n s) ≠ [] →
        (Recovers store image artifact ((store.publish_or_reuse image artifact).crash n s) ↔
          ¬HalfMade (done ((store.publish_or_reuse image artifact).trace n s)) ∧
            ∀ d, s.staging = some d → Recoverable image d)) ∧
      ∀ (ι π : Type) [DecidableEq ι] [DecidableEq π] (calls : ι → Call) (home : ι → π)
        (s : ImageEntry) (pool : Pool ι ImageEntry ImageStep BuildError ReuseOutcomeV1),
        Sound image s → (call_system store image calls home).Run System.AnyStep s pool →
          pool.shared.object ≠ none → (verify image).run pool.shared = (.ok (), pool.shared) := by
  constructor
  · intro artifact s n hdone
    cases hcheck : store.check_artifact image artifact with
    | error e =>
      rw [publish_refused hcheck] at hdone
      cases n <;> exact absurd rfl hdone
    | ok bytes =>
      have hcut := cuts_publish hcheck s n
      rw [List.nil_append] at hcut
      exact hcut hdone
  · intro ι π _ _ calls home s pool hs hrun hobject
    obtain ⟨o, ho⟩ := Option.ne_none_iff_exists'.mp hobject
    exact run_verify ho ((sound_run hs hrun).object o ho)

/-! ## A crash that stays -/

def sample_store : BuildImageStoreV1 :=
  ⟨"/images".toList, fun path => if path = "/images/candidate.bin".toList then some [7] else none⟩

def sample_image : BuildImageV1 := ⟨digest [], digest [7]⟩

theorem sample_check :
    sample_store.check_artifact sample_image "/images/candidate.bin".toList = .ok [7] := by
  have hroot : (path_components sample_store.root).isPrefixOf
      (path_components "/images/candidate.bin".toList) = true := by decide +kernel
  have hbounded : [(7 : UInt8)].length ≤ MAX_ARTIFACT_BYTES := by decide
  have hdigest : digest [7] = sample_image.dependency_artifact_sha256 := rfl
  unfold BuildImageStoreV1.check_artifact
  have hfile : sample_store.files "/images/candidate.bin".toList = some [7] := by
    simp only [sample_store, if_true]
  rw [hfile]
  dsimp only
  rw [ensure_ok hroot, ensure_ok hbounded, ensure_ok hdigest]
  rfl

/-- The store is empty, and the call stops when it has made the staging directory. -/
theorem staging_crash_stays :
    done ((sample_store.publish_or_reuse sample_image "/images/candidate.bin".toList).trace 5
      ⟨false, none, none, 0⟩) = [.CreateLock, .WriteLock, .CreateStaging] ∧
      ¬Recovers sample_store sample_image "/images/candidate.bin".toList
        ((sample_store.publish_or_reuse sample_image "/images/candidate.bin".toList).crash 5
          ⟨false, none, none, 0⟩) := by
  have hcut := cuts_publish sample_check ⟨false, none, none, 0⟩ 5
  rw [List.nil_append] at hcut
  have hdone : done ((sample_store.publish_or_reuse sample_image
      "/images/candidate.bin".toList).trace 5 ⟨false, none, none, 0⟩) =
        [.CreateLock, .WriteLock, .CreateStaging] := by
    rw [publish_of_check sample_check]
    rfl
  refine ⟨hdone, fun hrecovers => ?_⟩
  unfold Cut at hcut
  rw [hdone] at hcut
  exact ((hcut (by simp)).mp hrecovers).1 (by decide)

end LeanBun.Build.Images
