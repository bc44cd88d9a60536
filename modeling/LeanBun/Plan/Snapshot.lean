/-
What the snapshot of an inventory binds.

The text has every field of the inventory, and its packages in the order of their names with
the findings that they determine. So it determines the inventory up to the order of its
packages, and does not depend on that order.
-/
import LeanBun.Plan.JsonText

set_option autoImplicit false

namespace LeanBun.Plan

open LeanBun.Lib LeanBun.Core
open LeanBun.Bridge (json_string optional_json_string)

/-! ## Texts that may fail -/

/-- Where it gives texts, a writer can be cut off in front of anything. -/
def Writes {α : Type} (write : α → SnapshotResult Str) : Prop :=
  ∀ a b t u r s, write a = .ok t → write b = .ok u → t ++ r = u ++ s → a = b ∧ r = s

theorem path_text_writes : Writes path_text := by
  intro a b t u r s ha hb h
  have htext {path : CanonicalPath} {t : Str} (hpath : path_text path = .ok t) :
      ∃ value, path.bytes = as_bytes value ∧ t = json_string value := by
    unfold path_text at hpath
    split at hpath
    · cases hpath
    · rename_i value hvalue
      cases hpath
      exact ⟨value, from_utf8_eq_some.mp hvalue, rfl⟩
  obtain ⟨x, hx, rfl⟩ := htext ha
  obtain ⟨y, hy, rfl⟩ := htext hb
  obtain ⟨rfl, hrest⟩ := json_string_delimited _ _ _ _ trivial trivial h
  refine ⟨?_, hrest⟩
  cases a
  cases b
  simp only [CanonicalPath.mk.injEq]
  exact hx.trans hy.symm

/-- A path is written with a quote in front. -/
theorem path_text_head {path : CanonicalPath} {t : Str} (h : path_text path = .ok t) :
    ∃ rest, t = '"' :: rest := by
  unfold path_text at h
  split at h
  · cases h
  · cases h
    exact ⟨_, rfl⟩

theorem optional_path_text_writes : Writes optional_path_text := by
  intro a b t u r s ha hb h
  cases a with
  | none =>
    cases ha
    cases b with
    | none =>
      cases hb
      exact ⟨rfl, List.append_cancel_left h⟩
    | some b =>
      obtain ⟨rest, rfl⟩ := path_text_head hb
      exact absurd (List.cons.inj h).1 (by decide)
  | some a =>
    cases b with
    | none =>
      cases hb
      obtain ⟨rest, rfl⟩ := path_text_head ha
      exact absurd (List.cons.inj h).1 (by decide)
    | some b =>
      obtain ⟨rfl, hrest⟩ := path_text_writes _ _ _ _ _ _ ha hb h
      exact ⟨rfl, hrest⟩

theorem GitRevision.ext {a b : GitRevision} (h : a.as_str = b.as_str) : a = b := by
  cases a
  cases b
  simp only [GitRevision.mk.injEq]
  exact h

theorem declaration_text_none : declaration_text none = "null".toList := rfl

theorem declaration_text_git (revision : GitRevision) : declaration_text (some (.Git revision)) =
    "\x7b\"type\":\"git\",\"revision\":".toList ++ json_string revision.as_str ++ ['\x7d'] := rfl

theorem declaration_text_path (directory : Str) : declaration_text (some (.Path directory)) =
    "\x7b\"type\":\"path\",\"directory\":".toList ++ json_string directory ++ ['\x7d'] := rfl

/-- The texts of the kinds of declaration begin differently. -/
theorem declaration_text_delimited : Delimited (fun _ => True) declaration_text := by
  have hnull (x y : Str) : "null".toList ++ x ≠ '\x7b' :: y :=
    fun h => absurd (List.cons.inj h).1 (by decide)
  have hkinds (x y : Str) : "\x7b\"type\":\"git\",\"revision\":".toList ++ x ≠
      "\x7b\"type\":\"path\",\"directory\":".toList ++ y :=
    fronts_differ (by decide) (by decide) x y
  intro a b r s _ _ h
  rcases a with _ | ⟨revision⟩ | ⟨directory⟩ <;> rcases b with _ | ⟨revision'⟩ | ⟨directory'⟩ <;>
    simp only [declaration_text_none, declaration_text_git, declaration_text_path,
      List.append_assoc] at h
  · exact ⟨rfl, List.append_cancel_left h⟩
  · exact absurd h (hnull _ _)
  · exact absurd h (hnull _ _)
  · exact absurd h.symm (hnull _ _)
  · have h := List.append_cancel_left h
    obtain ⟨hrevision, hlast⟩ := json_string_delimited _ _ _ _ trivial trivial h
    exact ⟨by rw [GitRevision.ext hrevision], List.append_cancel_left hlast⟩
  · exact absurd h (hkinds _ _)
  · exact absurd h.symm (hnull _ _)
  · exact absurd h.symm (hkinds _ _)
  · have h := List.append_cancel_left h
    obtain ⟨hdirectory, hlast⟩ := json_string_delimited _ _ _ _ trivial trivial h
    exact ⟨by rw [hdirectory], List.append_cancel_left hlast⟩

theorem provider_text_writes : Writes provider_text := by
  have htext {provider : ProviderPackageRegistrationV1} {t : Str}
      (ht : provider_text (some provider) = .ok t) : ∃ directory,
      path_text provider.directory = .ok directory ∧
      t = "\x7b\"revision\":".toList ++ (json_string provider.revision.as_str ++
        (",\"directory\":".toList ++ (directory ++ ['\x7d']))) := by
    obtain ⟨directory, hdirectory, ht⟩ := bind_eq_ok.mp ht
    cases ht
    exact ⟨directory, hdirectory, by simp only [List.append_assoc]⟩
  intro a b t u r s ha hb h
  cases a with
  | none =>
    cases ha
    cases b with
    | none =>
      cases hb
      exact ⟨rfl, List.append_cancel_left h⟩
    | some b =>
      obtain ⟨directory, -, rfl⟩ := htext hb
      exact absurd (List.cons.inj h).1 (by decide)
  | some a =>
    obtain ⟨directory, hdirectory, rfl⟩ := htext ha
    cases b with
    | none =>
      cases hb
      exact absurd (List.cons.inj h).1 (by decide)
    | some b =>
      obtain ⟨directory', hdirectory', rfl⟩ := htext hb
      simp only [List.append_assoc] at h
      have h := List.append_cancel_left h
      obtain ⟨hrevision, h⟩ := json_string_delimited _ _ _ _ trivial trivial h
      have h := List.append_cancel_left h
      obtain ⟨hpath, h⟩ := path_text_writes _ _ _ _ _ _ hdirectory hdirectory' h
      refine ⟨?_, List.append_cancel_left h⟩
      cases a
      cases b
      simp only [Option.some.injEq, ProviderPackageRegistrationV1.mk.injEq]
      exact ⟨GitRevision.ext hrevision, hpath⟩

/-- Whether a checkout is dirty. -/
def dirty_text : Option Bool → Str
  | some true => "true".toList
  | some false => "false".toList
  | none => "null".toList

theorem dirty_text_delimited : Delimited (fun _ => True) dirty_text := by
  refine Delimited.of_prefixes fun a b _ _ h => ?_
  match a, b with
  | none, none | some true, some true | some false, some false => rfl
  | none, some true | none, some false | some true, none | some true, some false
  | some false, none | some false, some true => exact absurd h (by decide)

/-- The text of a checkout that is there. -/
theorem present_text {directory : CanonicalPath} {revision : Option GitRevision}
    {dirty : Option Bool} {t : Str} (h : checkout_text (.Present directory revision dirty) = .ok t) :
    ∃ path, path_text directory = .ok path ∧
      t = "\x7b\"state\":\"present\",\"directory\":".toList ++ (path ++
        (",\"revision\":".toList ++ (optional_json_string (revision.map GitRevision.as_str) ++
          (",\"dirty\":".toList ++ (dirty_text dirty ++ ['\x7d']))))) := by
  obtain ⟨path, hpath, h⟩ := bind_eq_ok.mp h
  cases h
  refine ⟨path, hpath, ?_⟩
  simp only [List.append_assoc]
  rfl

theorem checkout_text_writes : Writes checkout_text := by
  have hunobserved : ¬"\x7b\"state\":\"unobserved\"\x7d".toList <+:
      "\x7b\"state\":\"present\",\"directory\":".toList := by decide
  have hunobserved' : ¬"\x7b\"state\":\"present\",\"directory\":".toList <+:
      "\x7b\"state\":\"unobserved\"\x7d".toList := by decide
  have hmissing : ¬"\x7b\"state\":\"missing\"\x7d".toList <+:
      "\x7b\"state\":\"present\",\"directory\":".toList := by decide
  have hmissing' : ¬"\x7b\"state\":\"present\",\"directory\":".toList <+:
      "\x7b\"state\":\"missing\"\x7d".toList := by decide
  have hstates (x y : Str) : "\x7b\"state\":\"unobserved\"\x7d".toList ++ x ≠
      "\x7b\"state\":\"missing\"\x7d".toList ++ y := fronts_differ (by decide) (by decide) x y
  intro a b t u r s ha hb h
  match a, b with
  | .Unobserved, .Unobserved =>
    cases ha
    cases hb
    exact ⟨rfl, List.append_cancel_left h⟩
  | .Missing, .Missing =>
    cases ha
    cases hb
    exact ⟨rfl, List.append_cancel_left h⟩
  | .Unobserved, .Missing =>
    cases ha
    cases hb
    exact absurd h (hstates _ _)
  | .Missing, .Unobserved =>
    cases ha
    cases hb
    exact absurd h.symm (hstates _ _)
  | .Unobserved, .Present directory revision dirty =>
    cases ha
    obtain ⟨path, -, rfl⟩ := present_text hb
    rw [List.append_assoc] at h
    exact absurd h (fronts_differ hunobserved hunobserved' _ _)
  | .Missing, .Present directory revision dirty =>
    cases ha
    obtain ⟨path, -, rfl⟩ := present_text hb
    rw [List.append_assoc] at h
    exact absurd h (fronts_differ hmissing hmissing' _ _)
  | .Present directory revision dirty, .Unobserved =>
    cases hb
    obtain ⟨path, -, rfl⟩ := present_text ha
    rw [List.append_assoc] at h
    exact absurd h (fronts_differ hunobserved' hunobserved _ _)
  | .Present directory revision dirty, .Missing =>
    cases hb
    obtain ⟨path, -, rfl⟩ := present_text ha
    rw [List.append_assoc] at h
    exact absurd h (fronts_differ hmissing' hmissing _ _)
  | .Present directory revision dirty, .Present directory' revision' dirty' =>
    obtain ⟨path, hpath, rfl⟩ := present_text ha
    obtain ⟨path', hpath', rfl⟩ := present_text hb
    simp only [List.append_assoc] at h
    have h := List.append_cancel_left h
    obtain ⟨hdirectory, hafter⟩ := path_text_writes _ _ _ _ _ _ hpath hpath' h
    have hafter := List.append_cancel_left hafter
    obtain ⟨hrevision, hdirty⟩ := optional_json_string_delimited _ _ _ _ trivial trivial hafter
    have hdirty := List.append_cancel_left hdirty
    obtain ⟨hstate, hlast⟩ := dirty_text_delimited _ _ _ _ trivial trivial hdirty
    have hsame : revision = revision' :=
      Option.map_injective (fun _ _ heq => GitRevision.ext heq) hrevision
    exact ⟨by rw [hdirectory, hsame, hstate], List.append_cancel_left hlast⟩

/-! ## Packages -/

/-- A writer that can be cut off can be cut off in front of a stop. -/
theorem Writes.apart {α : Type} {write : α → SnapshotResult Str} {stop : Char → Prop}
    (h : Writes write) {a b : α} {t u : Str} (ha : write a = .ok t) (hb : write b = .ok u) :
    Apart stop t u := by
  intro r s _ _ heq
  obtain ⟨hab, hrest⟩ := h a b t u r s ha hb heq
  rw [hab, hb] at ha
  exact ⟨(Except.ok.inj ha).symm, hrest⟩

/-- **Texts determine the values** that they are written for. -/
theorem Writes.all {α : Type} {write : α → SnapshotResult Str} (h : Writes write) {l l' : List α}
    {texts : List Str} (hl : List.Forall₂ (fun a t => write a = .ok t) l texts)
    (hl' : List.Forall₂ (fun a t => write a = .ok t) l' texts) : l = l' := by
  induction hl generalizing l' with
  | nil => cases hl'; rfl
  | @cons a t l texts ha _ ih =>
    obtain _ | ⟨hb, hrest⟩ := hl'
    rw [(h _ _ _ _ [] [] ha hb rfl).1, ih hrest]

/-- What `push_package` writes. -/
theorem package_text_written {package : PackageInventoryEntryV1}
    {findings : List DependencyDriftFindingV1} {t : Str} (h : package_text package findings = .ok t) :
    ∃ resolved provider checkout,
      optional_path_text package.resolved_path_directory = .ok resolved ∧
      provider_text package.provider = .ok provider ∧
      checkout_text package.checkout = .ok checkout ∧
      t = "\x7b\"name\":".toList ++ (json_string package.name ++ (",\"declaration\":".toList ++
        (declaration_text package.declaration ++ (",\"projectOverrideDirectory\":".toList ++
        (optional_json_string package.project_override_directory ++
        (",\"resolvedPathDirectory\":".toList ++ (resolved ++ (",\"provider\":".toList ++
        (provider ++ (",\"checkout\":".toList ++ (checkout ++ (",\"findings\":".toList ++
        (array_text (findings.map finding_text) ++ ['\x7d']))))))))))))) := by
  obtain ⟨resolved, hresolved, h⟩ := bind_eq_ok.mp h
  obtain ⟨provider, hprovider, h⟩ := bind_eq_ok.mp h
  obtain ⟨checkout, hcheckout, h⟩ := bind_eq_ok.mp h
  cases h
  exact ⟨resolved, provider, checkout, hresolved, hprovider, hcheckout,
    by simp only [List.append_assoc]⟩

/-- **A package with the findings that it determines** can be cut off in front of anything. -/
theorem package_text_writes :
    Writes fun package => package_text package (classify_package package) := by
  intro a b t u r s ha hb h
  obtain ⟨resolved, provider, checkout, hresolved, hprovider, hcheckout, rfl⟩ :=
    package_text_written ha
  obtain ⟨resolved', provider', checkout', hresolved', hprovider', hcheckout', rfl⟩ :=
    package_text_written hb
  simp only [List.append_assoc] at h
  have h := List.append_cancel_left h
  obtain ⟨name_eq, h⟩ := json_string_delimited _ _ _ _ trivial trivial h
  have h := List.append_cancel_left h
  obtain ⟨declaration_eq, h⟩ := declaration_text_delimited _ _ _ _ trivial trivial h
  have h := List.append_cancel_left h
  obtain ⟨override_eq, h⟩ := optional_json_string_delimited _ _ _ _ trivial trivial h
  have h := List.append_cancel_left h
  obtain ⟨resolved_eq, h⟩ := optional_path_text_writes _ _ _ _ _ _ hresolved hresolved' h
  have h := List.append_cancel_left h
  obtain ⟨provider_eq, h⟩ := provider_text_writes _ _ _ _ _ _ hprovider hprovider' h
  have h := List.append_cancel_left h
  obtain ⟨checkout_eq, h⟩ := checkout_text_writes _ _ _ _ _ _ hcheckout hcheckout' h
  have hab : a = b := by
    cases a
    cases b
    simp only [PackageInventoryEntryV1.mk.injEq]
    exact ⟨name_eq, declaration_eq, override_eq, resolved_eq, provider_eq, checkout_eq⟩
  refine ⟨hab, ?_⟩
  -- the findings are those of the package, so the texts of them are the same
  rw [hab] at h
  have h := List.append_cancel_left h
  have h := List.append_cancel_left h
  exact List.append_cancel_left h

theorem package_text_item {package : PackageInventoryEntryV1}
    {findings : List DependencyDriftFindingV1} {t : Str} (h : package_text package findings = .ok t) :
    ItemText t := by
  obtain ⟨resolved, provider, checkout, -, -, -, rfl⟩ := package_text_written h
  exact ⟨List.cons_ne_nil _ _, fun h => absurd (Option.some.inj h) (by decide)⟩

/-! ## The snapshot -/

/-- The text of a snapshot, with the texts of its packages. -/
def snapshot_text (inventory : PackageInventoryV1) (summary : DependencyDriftSummaryV1)
    (packages : List Str) : Str :=
  "\x7b\"schemaVersion\":1,\"snapshotType\":\"package-inventory\",\"projectId\":".toList ++
    json_string inventory.project_id.to_string ++ ",\"projectPath\":".toList ++
    json_string inventory.project_path ++ ",\"toolchain\":".toList ++
    json_string inventory.toolchain ++ ",\"manifestSha256\":".toList ++
    json_string inventory.manifest_sha256.to_string ++ ",\"overrideSha256\":".toList ++
    optional_json_string (inventory.override_sha256.map Sha256.to_string) ++
    ",\"providerRegistrySha256\":".toList ++
    optional_json_string (inventory.provider_registry_sha256.map Sha256.to_string) ++
    ",\"providerOverrideSha256\":".toList ++
    optional_json_string (inventory.provider_override_sha256.map Sha256.to_string) ++
    ",\"driftSummary\":".toList ++ json_string (summary_name summary).toList ++
    ",\"packages\":".toList ++ array_text packages ++ ['\x7d']

/-- What stands behind a snapshot: the texts of the packages in the order of their names. -/
structure SnapshotOf (inventory : PackageInventoryV1) (texts : List Str)
    (snapshot : PackageInventorySnapshotDigestV1) : Prop where
  version : inventory.schema_version = 1
  project : inventory.project_id = Core.project_id inventory.project_path
  names : ∀ package ∈ inventory.packages, valid_inventory_name package.name = true
  nodup : (inventory.packages.map PackageInventoryEntryV1.name).Nodup
  packages : List.Forall₂ (fun package t => package_text package (classify_package package) = .ok t)
    (sort_by_key PackageInventoryEntryV1.name inventory.packages) texts
  written : snapshot.schema_version = 1 ∧ snapshot.sha256 = digest (as_bytes snapshot.canonical_json)
  text : snapshot.canonical_json =
    snapshot_text inventory (report_dependency_drift inventory).summary texts

/-- In the report of an inventory, each package has the findings that it determines. -/
theorem snapshot_package_report {inventory : PackageInventoryV1}
    (hnodup : (inventory.packages.map PackageInventoryEntryV1.name).Nodup)
    {package : PackageInventoryEntryV1} (hpackage : package ∈ inventory.packages) :
    snapshot_package (report_dependency_drift inventory) package =
      package_text package (classify_package package) := by
  have hnames : ((report_dependency_drift inventory).packages.map
      PackageDependencyDriftV1.name).Nodup := by
    simpa only [report_dependency_drift, List.map_map, Function.comp_def] using hnodup
  have hentry : PackageDependencyDriftV1.mk package.name (classify_package package) ∈
      (report_dependency_drift inventory).packages :=
    List.mem_map.mpr ⟨package, hpackage, rfl⟩
  have hfind := find_key_of_mem hnames hentry
  simp only at hfind
  simp only [snapshot_package, hfind]

/-- The report has the names of the inventory, in the same order. -/
theorem report_names (inventory : PackageInventoryV1) :
    (sort_by_key PackageInventoryEntryV1.name inventory.packages).map PackageInventoryEntryV1.name =
      (sort_by_key PackageDependencyDriftV1.name (report_dependency_drift inventory).packages).map
        PackageDependencyDriftV1.name := by
  have hmap := List.map_insertionSort
    (fun a b : PackageInventoryEntryV1 => a.name ≤ b.name)
    (fun a b : PackageDependencyDriftV1 => a.name ≤ b.name)
    (fun package => PackageDependencyDriftV1.mk package.name (classify_package package))
    inventory.packages (fun _ _ _ _ => Iff.rfl)
  unfold sort_by_key report_dependency_drift
  rw [← hmap, List.map_map]
  rfl

/-- The texts of the packages of a snapshot. -/
theorem snapshot_packages_ok {inventory : PackageInventoryV1} {texts : List Str}
    (hnodup : (inventory.packages.map PackageInventoryEntryV1.name).Nodup) :
    (sort_by_key PackageInventoryEntryV1.name inventory.packages).mapM
        (snapshot_package (report_dependency_drift inventory)) = .ok texts ↔
      List.Forall₂ (fun package t => package_text package (classify_package package) = .ok t)
        (sort_by_key PackageInventoryEntryV1.name inventory.packages) texts := by
  rw [mapM_eq_ok_iff]
  have hreport : ∀ package ∈ sort_by_key PackageInventoryEntryV1.name inventory.packages,
      snapshot_package (report_dependency_drift inventory) package =
        package_text package (classify_package package) := fun package hpackage =>
    snapshot_package_report hnodup ((mem_sort_by_key _).mp hpackage)
  generalize sort_by_key PackageInventoryEntryV1.name inventory.packages = packages at hreport ⊢
  induction packages generalizing texts with
  | nil => simp
  | cons package packages ih =>
    cases texts with
    | nil => simp
    | cons t texts =>
      rw [List.forall₂_cons, List.forall₂_cons, hreport package List.mem_cons_self]
      exact and_congr_right' (ih fun p hp => hreport p (List.mem_cons_of_mem _ hp))

/-- **What is digested.** Only the report of the inventory itself is accepted. -/
theorem snapshot_of {inventory : PackageInventoryV1} {drift : DependencyDriftReportV1}
    {snapshot : PackageInventorySnapshotDigestV1}
    (h : package_inventory_snapshot_digest_v1 inventory drift = .ok snapshot) :
    drift = report_dependency_drift inventory ∧ ∃ texts, SnapshotOf inventory texts snapshot := by
  unfold package_inventory_snapshot_digest_v1 at h
  obtain ⟨⟨hversion⟩, -, h⟩ := bind_eq_ok.mp h
  obtain ⟨⟨hproject⟩, -, h⟩ := bind_eq_ok.mp h
  obtain ⟨⟨hdrift⟩, -, h⟩ := bind_eq_ok.mp h
  obtain ⟨⟨hnames⟩, -, h⟩ := bind_eq_ok.mp h
  obtain ⟨_, -, h⟩ := bind_eq_ok.mp h
  obtain ⟨_, -, h⟩ := bind_eq_ok.mp h
  obtain ⟨texts, htexts, h⟩ := bind_eq_ok.mp h
  subst hdrift
  cases h
  refine ⟨rfl, texts, hversion.1, hproject.2, ?_, hnames.2,
    (snapshot_packages_ok hnames.2).mp htexts, ⟨rfl, rfl⟩, rfl⟩
  exact fun package hpackage => List.all_eq_true.mp hnames.1 package hpackage

/-- An inventory with texts for its packages has a snapshot. -/
theorem SnapshotOf.digest {inventory : PackageInventoryV1} {texts : List Str}
    {snapshot : PackageInventorySnapshotDigestV1} (h : SnapshotOf inventory texts snapshot) :
    package_inventory_snapshot_digest_v1 inventory (report_dependency_drift inventory) =
      .ok snapshot := by
  have hdrift_nodup : ((report_dependency_drift inventory).packages.map
      PackageDependencyDriftV1.name).Nodup := by
    simpa only [report_dependency_drift, List.map_map, Function.comp_def] using h.nodup
  unfold package_inventory_snapshot_digest_v1
  rw [ensure_ok ⟨h.version, rfl⟩, ensure_ok ⟨rfl, h.project⟩, ensure_ok rfl,
    ensure_ok ⟨List.all_eq_true.mpr h.names, h.nodup⟩, ensure_ok hdrift_nodup,
    ensure_ok (report_names inventory), (snapshot_packages_ok h.nodup).mpr h.packages]
  obtain ⟨schema_version, canonical_json, sha256⟩ := snapshot
  obtain ⟨hversion, hsha⟩ := h.written
  have htext := h.text
  dsimp only at hversion hsha htext
  subst hversion htext hsha
  rfl

/-! ## What a snapshot binds -/

/-- The fields of an inventory, all but its packages. -/
structure SameProject (a b : PackageInventoryV1) : Prop where
  project_id : a.project_id = b.project_id
  project_path : a.project_path = b.project_path
  toolchain : a.toolchain = b.toolchain
  manifest_sha256 : a.manifest_sha256 = b.manifest_sha256
  override_sha256 : a.override_sha256 = b.override_sha256
  provider_registry_sha256 : a.provider_registry_sha256 = b.provider_registry_sha256
  provider_override_sha256 : a.provider_override_sha256 = b.provider_override_sha256

theorem optional_sha256_injective {a b : Option Sha256}
    (h : a.map Sha256.to_string = b.map Sha256.to_string) : a = b :=
  Option.map_injective Sha256.to_string_injective h

/-- **The text of a snapshot** determines the project and the texts of the packages. -/
theorem snapshot_text_injective {a b : PackageInventoryV1} {sa sb : DependencyDriftSummaryV1}
    {ta tb : List Str} (hapart : ∀ t ∈ ta, ∀ u ∈ tb, Apart Ends t u) (hta : ∀ t ∈ ta, ItemText t)
    (htb : ∀ t ∈ tb, ItemText t) (h : snapshot_text a sa ta = snapshot_text b sb tb) :
    SameProject a b ∧ ta = tb := by
  delta snapshot_text at h
  simp only [List.append_assoc] at h
  have h := List.append_cancel_left h
  obtain ⟨project_id_eq, h⟩ := json_string_delimited _ _ _ _ trivial trivial h
  have h := List.append_cancel_left h
  obtain ⟨project_path_eq, h⟩ := json_string_delimited _ _ _ _ trivial trivial h
  have h := List.append_cancel_left h
  obtain ⟨toolchain_eq, h⟩ := json_string_delimited _ _ _ _ trivial trivial h
  have h := List.append_cancel_left h
  obtain ⟨manifest_eq, h⟩ := json_string_delimited _ _ _ _ trivial trivial h
  have h := List.append_cancel_left h
  obtain ⟨override_eq, h⟩ := optional_json_string_delimited _ _ _ _ trivial trivial h
  have h := List.append_cancel_left h
  obtain ⟨registry_eq, h⟩ := optional_json_string_delimited _ _ _ _ trivial trivial h
  have h := List.append_cancel_left h
  obtain ⟨provider_eq, h⟩ := optional_json_string_delimited _ _ _ _ trivial trivial h
  have h := List.append_cancel_left h
  obtain ⟨-, h⟩ := json_string_delimited _ _ _ _ trivial trivial h
  have h := List.append_cancel_left h
  obtain ⟨texts_eq, -⟩ := array_text_items hapart hta htb h
  exact ⟨⟨congrArg ProjectId.mk (Sha256.to_string_injective project_id_eq), project_path_eq,
    toolchain_eq, Sha256.to_string_injective manifest_eq, optional_sha256_injective override_eq,
    optional_sha256_injective registry_eq, optional_sha256_injective provider_eq⟩, texts_eq⟩

/-- **A snapshot binds its inventory**, up to the order of the packages. -/
theorem SnapshotOf.binds {a b : PackageInventoryV1} {ta tb : List Str}
    {sa sb : PackageInventorySnapshotDigestV1} (ha : SnapshotOf a ta sa) (hb : SnapshotOf b tb sb)
    (h : sa.canonical_json = sb.canonical_json) :
    a.packages.Perm b.packages ∧ { a with packages := b.packages } = b := by
  have hwritten {packages : List PackageInventoryEntryV1} {texts : List Str}
      (hpackages : List.Forall₂ (fun package t =>
        package_text package (classify_package package) = .ok t) packages texts) :
      ∀ t ∈ texts, ∃ package, package_text package (classify_package package) = .ok t :=
    fun t ht => by
      obtain ⟨package, -, hpackage⟩ := forall₂_partner hpackages.flip ht
      exact ⟨package, hpackage⟩
  have hitem {t : Str} (ht : ∃ package, package_text package (classify_package package) = .ok t) :
      ItemText t := by
    obtain ⟨package, hpackage⟩ := ht
    exact package_text_item hpackage
  rw [ha.text, hb.text] at h
  obtain ⟨hproject, htexts⟩ := snapshot_text_injective
    (fun t ht u hu => by
      obtain ⟨p, hp⟩ := hwritten ha.packages t ht
      obtain ⟨q, hq⟩ := hwritten hb.packages u hu
      exact package_text_writes.apart hp hq)
    (fun t ht => hitem (hwritten ha.packages t ht))
    (fun t ht => hitem (hwritten hb.packages t ht)) h
  subst htexts
  have hsorted := package_text_writes.all ha.packages hb.packages
  refine ⟨?_, ?_⟩
  · -- both are rearranged into the same list
    have hperm := sort_by_key_perm PackageInventoryEntryV1.name a.packages
    rw [hsorted] at hperm
    exact hperm.symm.trans (sort_by_key_perm PackageInventoryEntryV1.name b.packages)
  · have hversion := ha.version.trans hb.version.symm
    cases a
    cases b
    obtain ⟨hid, hpath, htoolchain, hmanifest, hoverride, hregistry, hprovider⟩ := hproject
    simp only [PackageInventoryV1.mk.injEq, and_true]
    exact ⟨hversion, hid, hpath, htoolchain, hmanifest, hoverride, hregistry, hprovider⟩

/-! ## The order of the packages -/

/-- The summary looks at the packages in no order. -/
theorem report_summary_perm {inventory : PackageInventoryV1}
    {packages : List PackageInventoryEntryV1} (h : packages.Perm inventory.packages) :
    (report_dependency_drift { inventory with packages := packages }).summary =
      (report_dependency_drift inventory).summary := by
  have hany (p : PackageDependencyDriftV1 → Bool) :
      (packages.map fun package => PackageDependencyDriftV1.mk package.name
        (classify_package package)).any p =
      (inventory.packages.map fun package => PackageDependencyDriftV1.mk package.name
        (classify_package package)).any p := (h.map _).any_eq
  simp only [report_dependency_drift, hany]

/-- **The order of the packages** is not in a snapshot. -/
theorem SnapshotOf.perm {inventory : PackageInventoryV1} {texts : List Str}
    {snapshot : PackageInventorySnapshotDigestV1} (h : SnapshotOf inventory texts snapshot)
    {packages : List PackageInventoryEntryV1} (hperm : packages.Perm inventory.packages) :
    SnapshotOf { inventory with packages := packages } texts snapshot := by
  have hnodup : (packages.map PackageInventoryEntryV1.name).Nodup :=
    (hperm.map _).nodup_iff.mpr h.nodup
  refine ⟨h.version, h.project, fun package hpackage => h.names package (hperm.mem_iff.mp hpackage),
    hnodup, ?_, h.written, ?_⟩
  · dsimp only
    rw [sort_by_key_perm_eq PackageInventoryEntryV1.name hperm hnodup]
    exact h.packages
  · rw [report_summary_perm hperm]
    exact h.text

end LeanBun.Plan
