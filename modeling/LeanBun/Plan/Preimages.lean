/-
What the digests of plans and images are taken of.

Every preimage is a JSON text that is pushed together by hand. Each determines the values that
it is written for: the inventory up to the order of its packages, the identity of the image,
the report and the parameters of the approval request.
-/
import LeanBun.Evidence.ImageIdentity
import LeanBun.Plan.Snapshot

set_option autoImplicit false

namespace LeanBun.Plan

open LeanBun.Lib LeanBun.Core
open LeanBun.Bridge (json_string optional_json_string)
open LeanBun.Evidence (ImageIdentityV1 image_id image_id_text image_id_text_injective)

/-! ## The report -/

/-- The object of a source in the report. -/
def source_text (source : LakeCommandPlanReportSourceV1) : Str :=
  object_text [("id", json_string source.id), ("sha256", json_string source.sha256)]

theorem source_fields (a b : LakeCommandPlanReportSourceV1) :
    SameFields [("id", json_string a.id), ("sha256", json_string a.sha256)]
      [("id", json_string b.id), ("sha256", json_string b.sha256)] :=
  .cons (string_apart _ _) (.cons (string_apart _ _) .nil)

theorem source_text_injective : Function.Injective source_text := by
  intro a b h
  have hfields := object_text_injective h (source_fields a b)
  simp only [List.cons.injEq, Prod.mk.injEq, true_and, and_true] at hfields
  cases a
  cases b
  simp only [LakeCommandPlanReportSourceV1.mk.injEq]
  exact ⟨json_string_injective hfields.1, json_string_injective hfields.2⟩

theorem source_item (source : LakeCommandPlanReportSourceV1) : ItemText (source_text source) := by
  unfold ItemText source_text object_text
  simp

theorem sources_apart (a b : List LakeCommandPlanReportSourceV1) :
    ∀ t ∈ a.map source_text, ∀ u ∈ b.map source_text, Apart Ends t u := by
  intro t ht u hu
  obtain ⟨x, -, rfl⟩ := List.mem_map.mp ht
  obtain ⟨y, -, rfl⟩ := List.mem_map.mp hu
  exact object_text_apart (source_fields x y)

theorem sources_items (a : List LakeCommandPlanReportSourceV1) :
    ∀ t ∈ a.map source_text, ItemText t := List.forall_mem_map.mpr fun x _ => source_item x

/-- The fields of the contract in the report. -/
def contract_fields (report : LakeCommandPlanReportV1) : List (String × Str) :=
  [("schemaVersion", decimal report.contract_schema_version.toNat),
    ("sources", array_text (report.contract_sources.map source_text))]

theorem contract_same_fields (a b : LakeCommandPlanReportV1) :
    SameFields (contract_fields a) (contract_fields b) :=
  .cons (decimal_apart _ _) (.cons (array_text_apart (sources_apart _ _) (sources_items _)
    (sources_items _)) .nil)

/-- The contract in the report determines its version and its sources. -/
theorem contract_text_injective {a b : LakeCommandPlanReportV1}
    (h : object_text (contract_fields a) = object_text (contract_fields b)) :
    a.contract_schema_version = b.contract_schema_version ∧
      a.contract_sources = b.contract_sources := by
  have hfields := object_text_injective h (contract_same_fields a b)
  simp only [contract_fields, List.cons.injEq, Prod.mk.injEq, true_and, and_true] at hfields
  obtain ⟨hversion, hsources⟩ := hfields
  refine ⟨UInt8.toNat_inj.mp (decimal_injective hversion), ?_⟩
  exact List.map_injective_iff.mpr source_text_injective
    (array_text_injective (sources_apart _ _) (sources_items _) (sources_items _) hsources)

/-- **The text of a report determines it.** -/
theorem to_canonical_json_injective :
    Function.Injective LakeCommandPlanReportV1.to_canonical_json := by
  intro a b h
  have hfields := object_text_injective h (.cons (decimal_apart _ _) (.cons (string_apart _ _)
    (.cons (object_text_apart (contract_same_fields a b)) (.cons (string_apart _ _)
    (.cons (string_apart _ _) (.cons (string_apart _ _) (.cons (string_apart _ _)
    (.cons (string_apart _ _) (.cons (decimal_apart _ _) (.cons (decimal_apart _ _)
    (.cons (bool_apart _ _) (.cons (bool_apart _ _) (.cons (json_array_apart _ _)
    (.cons (string_apart _ _) (.cons (json_array_apart _ _) (.cons (string_apart _ _)
    (.cons (string_apart _ _) (.cons (json_array_apart _ _) (.cons (json_array_apart _ _)
    (.cons (json_array_apart _ _) (.cons (string_apart _ _) .nil)))))))))))))))))))))
  simp only [List.cons.injEq, Prod.mk.injEq, true_and, and_true] at hfields
  obtain ⟨hversion, htype, hcontract, hfamily, hlake, hsnapshot, hexecutable, hsha, hlength, hmode,
    hregular, hsymlink, harguments, hcwd, hkeys, hclass, hnetwork, heffects, hrisks, hmitigations,
    hauthority⟩ := hfields
  obtain ⟨hcontract_version, hsources⟩ := contract_text_injective hcontract
  cases a
  cases b
  simp only [LakeCommandPlanReportV1.mk.injEq]
  exact ⟨UInt8.toNat_inj.mp (decimal_injective hversion), json_string_injective htype,
    hcontract_version, hsources, json_string_injective hfamily, json_string_injective hlake,
    json_string_injective hsnapshot, json_string_injective hexecutable,
    json_string_injective hsha, UInt64.toNat_inj.mp (decimal_injective hlength),
    UInt32.toNat_inj.mp (decimal_injective hmode), bool_text_injective hregular,
    bool_text_injective hsymlink, json_array_injective harguments, json_string_injective hcwd,
    json_array_injective hkeys, json_string_injective hclass, json_string_injective hnetwork,
    json_array_injective heffects, json_array_injective hrisks,
    json_array_injective hmitigations, json_string_injective hauthority⟩

/-! ## The approval request -/

/-- The parameters of an approval request. -/
structure RequestParameters where
  plan_report_sha256 : Sha256
  project_id : Str
  nonce : Str
  issued_at_unix_ms : UInt64
  expires_at_unix_ms : UInt64
deriving DecidableEq

/-- The text in `approval_request_id_v1`. -/
def request_id_text (parameters : RequestParameters) : Str :=
  object_text [("schema", json_string "leanbun-lake-command-approval-request-v1".toList),
    ("planReportSha256", json_string parameters.plan_report_sha256.to_string),
    ("projectId", json_string parameters.project_id), ("nonce", json_string parameters.nonce),
    ("issuedAtUnixMs", decimal parameters.issued_at_unix_ms.toNat),
    ("expiresAtUnixMs", decimal parameters.expires_at_unix_ms.toNat)]

/-- The identity of a request is the digest of its text. -/
theorem approval_request_id_of_text (p : RequestParameters) :
    approval_request_id_v1 p.plan_report_sha256 p.project_id p.nonce p.issued_at_unix_ms
      p.expires_at_unix_ms = digest (as_bytes (request_id_text p)) := rfl

/-- **The text of a request determines its parameters.** -/
theorem request_id_text_injective : Function.Injective request_id_text := by
  intro a b h
  have hfields := object_text_injective h (.cons (string_apart _ _) (.cons (string_apart _ _)
    (.cons (string_apart _ _) (.cons (string_apart _ _) (.cons (decimal_apart _ _)
      (.cons (decimal_apart _ _) .nil))))))
  simp only [List.cons.injEq, Prod.mk.injEq, true_and, and_true] at hfields
  obtain ⟨hreport, hproject, hnonce, hissued, hexpires⟩ := hfields
  cases a
  cases b
  simp only [RequestParameters.mk.injEq]
  exact ⟨Sha256.to_string_injective (json_string_injective hreport),
    json_string_injective hproject, json_string_injective hnonce,
    UInt64.toNat_inj.mp (decimal_injective hissued),
    UInt64.toNat_inj.mp (decimal_injective hexpires)⟩

/-- The digest of a report that an approval request carries. -/
theorem request_report_digest {plan : LakeCommandPlanV1} {nonce : Str} {issued expires : UInt64}
    {request : LakeCommandApprovalRequestV1}
    (h : lake_command_approval_request_v1 plan nonce issued expires = .ok request) :
    ∃ report, lake_command_plan_report_v1 plan = .ok report ∧
      request.plan_report_sha256 = digest (as_bytes report.to_canonical_json) := by
  unfold lake_command_approval_request_v1 at h
  obtain ⟨-, -, h⟩ := bind_eq_ok.mp h
  obtain ⟨-, -, h⟩ := bind_eq_ok.mp h
  obtain ⟨report, hreport, h⟩ := bind_eq_ok.mp h
  cases h
  exact ⟨report, mapError_eq_ok.mp hreport, rfl⟩

/-! ## What the preimages bind -/

/-- **The preimages bind.** Two snapshots with one text are of one inventory, up to the order of
its packages, and that order is not in the text. The texts under the identity of an image, the
digest of a report and the identity of a request determine what they are written for. -/
theorem preimages_bind {inventory inventory' : PackageInventoryV1}
    {drift drift' : DependencyDriftReportV1} {snapshot snapshot' : PackageInventorySnapshotDigestV1}
    (h : package_inventory_snapshot_digest_v1 inventory drift = .ok snapshot)
    (h' : package_inventory_snapshot_digest_v1 inventory' drift' = .ok snapshot') :
    (snapshot.canonical_json = snapshot'.canonical_json →
      inventory.packages.Perm inventory'.packages ∧
        { inventory with packages := inventory'.packages } = inventory') ∧
    (∀ packages, packages.Perm inventory.packages →
      package_inventory_snapshot_digest_v1 { inventory with packages := packages }
        (report_dependency_drift { inventory with packages := packages }) = .ok snapshot) ∧
    snapshot.sha256 = digest (as_bytes snapshot.canonical_json) ∧
    (∀ identity, image_id identity = digest (as_bytes (image_id_text identity))) ∧
    (∀ a b : ImageIdentityV1, as_bytes (image_id_text a) = as_bytes (image_id_text b) → a = b) ∧
    (∀ plan nonce issued expires request,
      lake_command_approval_request_v1 plan nonce issued expires = .ok request →
      ∃ report, lake_command_plan_report_v1 plan = .ok report ∧
        request.plan_report_sha256 = digest (as_bytes report.to_canonical_json)) ∧
    (∀ a b : LakeCommandPlanReportV1,
      as_bytes a.to_canonical_json = as_bytes b.to_canonical_json → a = b) ∧
    (∀ p : RequestParameters, approval_request_id_v1 p.plan_report_sha256 p.project_id p.nonce
      p.issued_at_unix_ms p.expires_at_unix_ms = digest (as_bytes (request_id_text p))) ∧
    (∀ p q : RequestParameters,
      as_bytes (request_id_text p) = as_bytes (request_id_text q) → p = q) := by
  obtain ⟨-, texts, hof⟩ := snapshot_of h
  obtain ⟨-, texts', hof'⟩ := snapshot_of h'
  refine ⟨fun htext => hof.binds hof' htext, fun packages hperm => (hof.perm hperm).digest,
    hof.written.2, fun _ => rfl, ?_, fun _ _ _ _ _ hrequest => request_report_digest hrequest,
    ?_, approval_request_id_of_text, ?_⟩
  · intro a b hbytes
    exact image_id_text_injective (as_bytes_injective hbytes)
  · intro a b hbytes
    exact to_canonical_json_injective (as_bytes_injective hbytes)
  · intro p q hbytes
    exact request_id_text_injective (as_bytes_injective hbytes)

/-- A package of which nothing is known. -/
def unknown_package (name : String) : PackageInventoryEntryV1 :=
  ⟨name.toList, none, none, none, none, .Unobserved⟩

/-- An inventory of two packages. -/
def two_packages : PackageInventoryV1 :=
  ⟨1, Core.project_id "/p".toList, "/p".toList, "lean".toList, digest [], none, none, none,
    [unknown_package "a", unknown_package "b"]⟩

theorem two_packages_snapshot : ∃ snapshot, package_inventory_snapshot_digest_v1 two_packages
    (report_dependency_drift two_packages) = .ok snapshot := by
  have hsorted : sort_by_key PackageInventoryEntryV1.name two_packages.packages =
      two_packages.packages := sort_by_key_eq_self _ (by decide +kernel)
  obtain ⟨texts, htexts⟩ : ∃ texts, List.Forall₂
      (fun package t => package_text package (classify_package package) = .ok t)
      two_packages.packages texts := ⟨[_, _], .cons rfl (.cons rfl .nil)⟩
  have hof : SnapshotOf two_packages texts
      ⟨1, snapshot_text two_packages (report_dependency_drift two_packages).summary texts,
        Core.digest (as_bytes
          (snapshot_text two_packages (report_dependency_drift two_packages).summary texts))⟩ := by
    refine ⟨rfl, rfl, by decide +kernel, by decide +kernel, ?_, ⟨rfl, rfl⟩, rfl⟩
    rw [hsorted]
    exact htexts
  exact ⟨_, hof.digest⟩

theorem preimages_bind_sample : ∃ snapshot,
    package_inventory_snapshot_digest_v1 two_packages (report_dependency_drift two_packages) =
      .ok snapshot ∧
    package_inventory_snapshot_digest_v1
      { two_packages with packages := [unknown_package "b", unknown_package "a"] }
      (report_dependency_drift
        { two_packages with packages := [unknown_package "b", unknown_package "a"] }) =
      .ok snapshot := by
  obtain ⟨snapshot, h⟩ := two_packages_snapshot
  exact ⟨snapshot, h, (preimages_bind h h).2.1 _ (List.Perm.swap _ _ _)⟩

end LeanBun.Plan
