/-
What a plan of the planner goes through afterwards.

A plan names its effects and risks as the contract wants them, and its arguments begin as
they should. What can still be refused is an argument `upgrade`, which the contract takes
for the other spelling of the command although here it is the name of a package, and a path
that is not text. Every other plan passes the report, the request and the preflight.
-/
import LeanBun.Plan.Report

set_option autoImplicit false

namespace LeanBun.Plan

open LeanBun.Lib LeanBun.Core
open LeanBun.Approval (PlanExecutionAuthorityV1)

/-! ## The contract -/

section Rows

variable {β : Type} {parse : β → List Str → ℕ → ContractResult β}

/-- The rows of a text are read as they are written. -/
theorem parse_rows_tsv {rows : List (List String)} (start : β)
    (hrows : ∀ row ∈ rows, row ≠ [] ∧ ∀ field ∈ row, IsToken field.toList) :
    parse_rows parse (tsv rows) start = rows.zipIdx.foldlM
      (fun read entry => parse read (entry.1.map String.toList) entry.2) start := by
  have htokens : ∀ row ∈ rows, ∀ field ∈ row.map String.toList, IsToken field := by
    intro row hrow field hfield
    obtain ⟨text, htext, rfl⟩ := List.mem_map.mp hfield
    exact (hrows row hrow).2 text htext
  have hlines : lines (tsv rows) = rows.map fun row => tab_line (row.map String.toList) := by
    refine lines_unlines _ fun line hline => ?_
    obtain ⟨row, hrow, rfl⟩ := List.mem_map.mp hline
    exact ⟨tab_line_not_mem (by decide) _ fun f hf => (htokens row hrow f hf).not_mem (by decide),
      tab_line_not_mem (by decide) _ fun f hf => (htokens row hrow f hf).not_mem (by decide)⟩
  unfold parse_rows
  rw [hlines, List.zipIdx_map, List.foldlM_map]
  -- each line splits into the fields of its row
  have hfold : ∀ (rest : List (List String)) (index : ℕ) (read : β), (∀ row ∈ rest, row ∈ rows) →
      (rest.zipIdx index).foldlM (fun read entry => parse read
        (split '\t' (tab_line (entry.1.map String.toList))) entry.2) read =
      (rest.zipIdx index).foldlM (fun read entry => parse read (entry.1.map String.toList) entry.2)
        read := by
    intro rest
    induction rest with
    | nil => exact fun _ _ _ => rfl
    | cons row rest ih =>
      intro index read hmem
      have hrow := hmem row List.mem_cons_self
      have hne : row.map String.toList ≠ [] := fun hnil =>
        (hrows row hrow).1 (List.map_eq_nil_iff.mp hnil)
      rw [List.zipIdx_cons, List.foldlM_cons, List.foldlM_cons]
      rw [split_tab_line _ hne (htokens row hrow)]
      congr 1
      funext next
      exact ih (index + 1) next fun other hother => hmem other (List.mem_cons_of_mem _ hother)
  exact hfold rows 0 start fun _ h => h

end Rows

/-- The risks that the facts name, as often as they do. -/
def contract_risks : List PlanRiskV1 :=
  [.CheckoutMutation, .UntrustedProjectConfigurationExecution, .ManifestRewrite,
    .LakeInternalStateMutation, .NetworkAndRemoteContent, .CheckoutMutation,
    .PostUpdateHookExecution, .LakeInternalStateMutation, .LakeInternalStateMutation]

theorem source_rows_plain :
    ∀ row ∈ source_rows, row ≠ [] ∧ ∀ field ∈ row, IsToken field.toList := by
  unfold IsToken
  decide +kernel

theorem fact_rows_plain :
    ∀ row ∈ fact_rows, row ≠ [] ∧ ∀ field ∈ row, IsToken field.toList := by
  unfold IsToken
  decide +kernel

/-- The contract, with the rows in place of the texts. -/
theorem contract_of_rows : lake_update_contract_v1 = do
    let sources ← source_rows.zipIdx.foldlM (fun read entry =>
      parse_source_fields read (entry.1.map String.toList) entry.2) []
    let facts ← fact_rows.zipIdx.foldlM (fun read entry =>
      parse_fact_fields (sources.map LakeUpdateContractSourceV1.id) read
        (entry.1.map String.toList) entry.2) []
    let _ ← ensure (sources ≠ [] ∧ facts ≠ [])
      ⟨"Lake update contract fixtures must not be empty".toList⟩
    return ⟨1, SUPPORTED_LAKE_VERSION, sources, facts⟩ := by
  unfold lake_update_contract_v1 SOURCES_V1 FACTS_V1
  rw [parse_rows_tsv _ source_rows_plain]
  simp only [parse_rows_tsv _ fact_rows_plain]

/-- **What the fixtures say.** Its effects are those of the planner, and its rules about the
arguments are all there are. -/
theorem contract_read : ∃ contract, lake_update_contract_v1 = .ok contract ∧
    contract.lake_version = SUPPORTED_LAKE_VERSION ∧
    contract.facts.filterMap LakeUpdateContractFactV1.effect = planned_effects ∧
    contract.facts.filterMap LakeUpdateContractFactV1.risk = contract_risks ∧
    contract.requirements = [.ExplicitPackages, .CanonicalUpdateCommand, .KeepToolchain] ∧
    contract.mitigations = [.RequireExplicitPackages, .RejectBareUpdate,
      .UseCanonicalUpdateCommand, .IncludeKeepToolchain] := by
  have hfacts : lake_update_contract_v1.toOption.map (fun contract => (contract.lake_version,
      contract.facts.filterMap LakeUpdateContractFactV1.effect,
      contract.facts.filterMap LakeUpdateContractFactV1.risk)) =
      some (SUPPORTED_LAKE_VERSION, planned_effects, contract_risks) := by
    rw [contract_of_rows]
    decide +kernel
  have hrules : lake_update_contract_v1.toOption.map (fun contract => (contract.requirements,
      contract.mitigations)) = some ([.ExplicitPackages, .CanonicalUpdateCommand, .KeepToolchain],
      [.RequireExplicitPackages, .RejectBareUpdate, .UseCanonicalUpdateCommand,
        .IncludeKeepToolchain]) := by
    rw [contract_of_rows]
    decide +kernel
  cases hcontract : lake_update_contract_v1 with
  | error e =>
    rw [hcontract] at hfacts
    cases hfacts
  | ok contract =>
    rw [hcontract] at hfacts hrules
    have hfacts := Option.some.inj hfacts
    have hrules := Option.some.inj hrules
    simp only [Prod.mk.injEq] at hfacts hrules
    exact ⟨contract, rfl, hfacts.1, hfacts.2.1, hfacts.2.2, hrules⟩

theorem plan_risks_cover (summary : DependencyDriftSummaryV1) :
    (plan_risks summary).Nodup ∧ contract_risks ⊆ plan_risks summary := by
  cases summary <;> decide

/-! ## The planner -/

section Select

variable {inventory : PackageInventoryV1}

/-- A package that can be selected. -/
def Selectable (inventory : PackageInventoryV1) (package : Str) : Prop :=
  valid_package_selector package = true ∧
    ∃ entry, inventory.packages.find? (fun entry => decide (entry.name = package)) = some entry ∧
      declared_git entry.declaration = true

theorem select_package_eq_ok {selected next : List Str} {package : Str} :
    select_package inventory selected package = .ok next ↔
      Selectable inventory package ∧ package ∉ selected ∧ next = selected ++ [package] := by
  unfold select_package Selectable
  constructor
  · intro h
    obtain ⟨⟨hvalid⟩, -, h⟩ := bind_eq_ok.mp h
    obtain ⟨⟨hfresh⟩, -, h⟩ := bind_eq_ok.mp h
    split at h
    · cases h
    next entry hentry =>
    obtain ⟨⟨hdeclared⟩, -, h⟩ := bind_eq_ok.mp h
    exact ⟨⟨hvalid, entry, hentry, hdeclared⟩, hfresh, (Except.ok.inj h).symm⟩
  · rintro ⟨⟨hvalid, entry, hentry, hdeclared⟩, hfresh, rfl⟩
    refine bind_eq_ok.mpr ⟨_, ensure_ok hvalid _, ?_⟩
    refine bind_eq_ok.mpr ⟨_, ensure_ok hfresh _, ?_⟩
    rw [hentry]
    exact bind_eq_ok.mpr ⟨_, ensure_ok hdeclared _, rfl⟩

/-- **The loop** selects every package once, in the order of the request. -/
theorem select_packages_eq_ok {selected next packages : List Str} :
    packages.foldlM (select_package inventory) selected = .ok next ↔
      (∀ package ∈ packages, Selectable inventory package) ∧ packages.Nodup ∧
        (∀ package ∈ packages, package ∉ selected) ∧ next = selected ++ packages := by
  induction packages generalizing selected with
  | nil =>
    rw [List.foldlM_nil, List.append_nil]
    exact ⟨fun h => ⟨by simp, List.nodup_nil, by simp, (Except.ok.inj h).symm⟩,
      fun h => by rw [h.2.2.2]; rfl⟩
  | cons package packages ih =>
    rw [List.foldlM_cons, bind_eq_ok, List.nodup_cons]
    simp only [List.forall_mem_cons]
    constructor
    · rintro ⟨middle, hone, hrest⟩
      obtain ⟨hpackage, hfresh, rfl⟩ := select_package_eq_ok.mp hone
      obtain ⟨hall, hnodup, hothers, rfl⟩ := ih.mp hrest
      have hsplit : ∀ other ∈ packages, other ∉ selected ∧ other ≠ package := by
        intro other hother
        have hout := hothers other hother
        rw [List.mem_append, List.mem_singleton, not_or] at hout
        exact hout
      refine ⟨⟨hpackage, hall⟩, ⟨fun hmem => (hsplit package hmem).2 rfl, hnodup⟩,
        ⟨hfresh, fun other hother => (hsplit other hother).1⟩, ?_⟩
      rw [List.append_assoc]
      rfl
    · rintro ⟨⟨hpackage, hall⟩, ⟨hnew, hnodup⟩, ⟨hfresh, hothers⟩, rfl⟩
      refine ⟨_, select_package_eq_ok.mpr ⟨hpackage, hfresh, rfl⟩, ?_⟩
      refine ih.mpr ⟨hall, hnodup, fun other hother => ?_, ?_⟩
      · rw [List.mem_append, List.mem_singleton, not_or]
        exact ⟨hothers other hother, fun heq => hnew (heq ▸ hother)⟩
      · rw [List.append_assoc]
        rfl

end Select

/-- What the planner makes of a request that it accepts, for the digest of its inventory. -/
structure Planned (request : LakeUpdatePlanRequestV1) (plan : LakeCommandPlanV1) : Prop where
  schema_version : plan.schema_version = 1
  lake_version : plan.lake_version = SUPPORTED_LAKE_VERSION
  observed_version : request.executable_observation.schema_version = 1
  executable : same_executable request.executable_observation plan
  safe : safe_executable request.executable_observation.regular_file
    request.executable_observation.symlink_free request.executable_observation.byte_length
    request.executable_observation.unix_mode = true
  arguments : plan.arguments =
    "--keep-toolchain".toList :: "update".toList :: sort_by_key id request.packages
  packages : request.packages ≠ []
  cwd : plan.cwd = request.project_root
  effects : plan.expected_effects = planned_effects
  risks : plan.risks = plan_risks request.drift_report.summary

theorem planned {request : LakeUpdatePlanRequestV1} {plan : LakeCommandPlanV1}
    (h : plan_lake_update request = .ok plan) : Planned request plan := by
  unfold plan_lake_update at h
  dsimp only at h
  obtain ⟨⟨hversions⟩, -, h⟩ := bind_eq_ok.mp h
  obtain ⟨_, -, h⟩ := bind_eq_ok.mp h
  obtain ⟨_, -, h⟩ := bind_eq_ok.mp h
  obtain ⟨snapshot, -, h⟩ := bind_eq_ok.mp h
  obtain ⟨_, -, h⟩ := bind_eq_ok.mp h
  obtain ⟨⟨hsafe⟩, -, h⟩ := bind_eq_ok.mp h
  obtain ⟨⟨hpackages⟩, -, h⟩ := bind_eq_ok.mp h
  obtain ⟨selected, hselected, h⟩ := bind_eq_ok.mp h
  obtain ⟨-, -, -, rfl⟩ := select_packages_eq_ok.mp hselected
  rw [← Except.ok.inj h]
  exact ⟨rfl, hversions.2, hversions.1, ⟨rfl, rfl, rfl, rfl, rfl, rfl, rfl⟩, hsafe, rfl, hpackages,
    rfl, rfl, rfl⟩

/-- **Order.** The plan is the same for the same packages in another order. -/
theorem plan_lake_update_perm {request : LakeUpdatePlanRequestV1} {plan : LakeCommandPlanV1}
    {packages : List Str} (h : plan_lake_update request = .ok plan)
    (hperm : packages.Perm request.packages) :
    plan_lake_update { request with packages := packages } = .ok plan := by
  unfold plan_lake_update at h ⊢
  dsimp only at h ⊢
  obtain ⟨_, h₁, h⟩ := bind_eq_ok.mp h
  obtain ⟨_, h₂, h⟩ := bind_eq_ok.mp h
  obtain ⟨_, h₃, h⟩ := bind_eq_ok.mp h
  obtain ⟨snapshot, h₄, h⟩ := bind_eq_ok.mp h
  obtain ⟨_, h₅, h⟩ := bind_eq_ok.mp h
  obtain ⟨_, h₆, h⟩ := bind_eq_ok.mp h
  obtain ⟨⟨hpackages⟩, -, h⟩ := bind_eq_ok.mp h
  obtain ⟨selected, hselected, h⟩ := bind_eq_ok.mp h
  obtain ⟨hall, hnodup, -, rfl⟩ := select_packages_eq_ok.mp hselected
  refine bind_eq_ok.mpr ⟨_, h₁, bind_eq_ok.mpr ⟨_, h₂, bind_eq_ok.mpr ⟨_, h₃, ?_⟩⟩⟩
  refine bind_eq_ok.mpr ⟨_, h₄, bind_eq_ok.mpr ⟨_, h₅, bind_eq_ok.mpr ⟨_, h₆, ?_⟩⟩⟩
  have hne : packages ≠ [] := fun hnil => hpackages (hnil ▸ hperm).nil_eq.symm
  refine bind_eq_ok.mpr ⟨_, ensure_ok hne _, ?_⟩
  refine bind_eq_ok.mpr ⟨packages, select_packages_eq_ok.mpr
    ⟨fun package hmem => hall package (hperm.mem_iff.mp hmem), hperm.nodup_iff.mpr hnodup,
      fun _ _ => List.not_mem_nil, rfl⟩, ?_⟩
  have hsorted : sort_by_key id packages = sort_by_key id request.packages :=
    sort_by_key_perm_eq_of_injective _ hperm Function.injective_id
  rw [hsorted]
  exact h

/-! ## The contract on a planned update -/

theorem check_requirement_eq_ok {arguments : List Str} {requirement : LakeUpdateRequirementV1} :
    check_requirement arguments requirement = .ok () ↔
      satisfies_requirement arguments requirement = true := by
  unfold check_requirement
  rw [bind_eq_ok]
  exact ⟨fun ⟨⟨h⟩, _⟩ => h, fun h => ⟨⟨h⟩, ensure_ok h _, rfl⟩⟩

theorem check_mitigation_eq_ok {arguments : List Str} {mitigation : LakeUpdateMitigationV1} :
    check_mitigation arguments mitigation = .ok () ↔
      satisfies_mitigation arguments mitigation = true := by
  unfold check_mitigation
  rw [bind_eq_ok]
  exact ⟨fun ⟨⟨h⟩, _⟩ => h, fun h => ⟨⟨h⟩, ensure_ok h _, rfl⟩⟩

/-- A loop of checks succeeds when every check does. -/
theorem forM_eq_ok {ε α : Type} {check : α → Except ε Unit} {l : List α} :
    l.forM check = .ok () ↔ ∀ a ∈ l, check a = .ok () := by
  induction l with
  | nil => exact ⟨fun _ => by simp, fun _ => rfl⟩
  | cons a l ih =>
    rw [List.forall_mem_cons]
    show (check a >>= fun _ => l.forM check) = .ok () ↔ _
    rw [bind_eq_ok]
    exact ⟨fun ⟨_, hone, hrest⟩ => ⟨hone, ih.mp hrest⟩, fun ⟨hone, hrest⟩ => ⟨(), hone, ih.mpr hrest⟩⟩

section Planned

variable {request : LakeUpdatePlanRequestV1} {plan : LakeCommandPlanV1}

theorem Planned.update_position (h : Planned request plan) :
    Plan.update_position plan.arguments = some 1 := by
  unfold Plan.update_position
  rw [h.arguments, List.findIdx?_cons, List.findIdx?_cons]
  rfl

theorem Planned.update_packages (h : Planned request plan) :
    (Plan.update_packages plan.arguments).isEmpty = false := by
  unfold Plan.update_packages
  rw [h.update_position, h.arguments]
  show (sort_by_key id request.packages).isEmpty = false
  rw [List.isEmpty_eq_false_iff, ← List.length_pos_iff, sort_by_key_length, List.length_pos_iff]
  exact h.packages

theorem Planned.keep_toolchain (h : Planned request plan) :
    plan.arguments.head? = some "--keep-toolchain".toList := by
  rw [h.arguments]
  rfl

theorem Planned.safe_plan (h : Planned request plan) :
    safe_executable plan.executable_regular_file plan.executable_symlink_free
      plan.executable_byte_length plan.executable_unix_mode = true := by
  obtain ⟨-, -, -, hlength, hmode, hregular, hlink⟩ := h.executable
  rw [← hlength, ← hmode, ← hregular, ← hlink]
  exact h.safe

theorem Planned.contains_upgrade (h : Planned request plan) :
    plan.arguments.contains "upgrade".toList = false ↔ "upgrade".toList ∉ request.packages := by
  have hkeep : "upgrade".toList ≠ "--keep-toolchain".toList := by decide
  have hupdate : "upgrade".toList ≠ "update".toList := by decide
  rw [h.arguments, ← Bool.not_eq_true, List.contains_iff_mem, List.mem_cons, List.mem_cons,
    mem_sort_by_key]
  simp only [hkeep, hupdate, false_or]

/-- **The contract.** A planned update meets it unless a package is named `upgrade`. -/
theorem Planned.verify_iff (h : Planned request plan) :
    verify_lake_update_plan_contract_v1 plan = .ok () ↔ "upgrade".toList ∉ request.packages := by
  obtain ⟨contract, hcontract, hversion, heffects, hrisks, hrequirements, hmitigations⟩ :=
    contract_read
  have hposition := h.update_position
  have hpackages := h.update_packages
  have hkeep := h.keep_toolchain
  have hupgrade := h.contains_upgrade
  unfold verify_lake_update_plan_contract_v1
  rw [hcontract]
  constructor
  · intro hverified
    obtain ⟨_, hc, hverified⟩ := bind_eq_ok.mp hverified
    obtain rfl := Except.ok.inj hc
    obtain ⟨_, -, hverified⟩ := bind_eq_ok.mp hverified
    obtain ⟨_, -, hverified⟩ := bind_eq_ok.mp hverified
    obtain ⟨_, -, hverified⟩ := bind_eq_ok.mp hverified
    obtain ⟨_, -, hverified⟩ := bind_eq_ok.mp hverified
    obtain ⟨_, -, hverified⟩ := bind_eq_ok.mp hverified
    obtain ⟨_, hloop, -⟩ := bind_eq_ok.mp hverified
    have hcommand := check_requirement_eq_ok.mp
      (forM_eq_ok.mp hloop .CanonicalUpdateCommand (by rw [hrequirements]; decide))
    unfold satisfies_requirement at hcommand
    rw [Bool.and_eq_true, Bool.not_eq_true'] at hcommand
    exact hupgrade.mp hcommand.2
  · intro hnot
    have hrefused := hupgrade.mpr hnot
    refine bind_eq_ok.mpr ⟨contract, rfl, ?_⟩
    refine bind_eq_ok.mpr ⟨_, ensure_ok ⟨h.schema_version, rfl, hversion ▸ h.lake_version⟩ _, ?_⟩
    refine bind_eq_ok.mpr ⟨_, ensure_ok rfl _, ?_⟩
    refine bind_eq_ok.mpr ⟨_, ensure_ok h.safe_plan _, ?_⟩
    refine bind_eq_ok.mpr ⟨_, ensure_ok (by rw [h.effects, heffects]; decide) _, ?_⟩
    refine bind_eq_ok.mpr ⟨_, ensure_ok (by
      rw [h.risks, hrisks]
      exact plan_risks_cover _) _, ?_⟩
    refine bind_eq_ok.mpr ⟨(), ?_, ?_⟩
    · rw [forM_eq_ok]
      intro requirement _
      rw [check_requirement_eq_ok]
      cases requirement with
      | ExplicitPackages => rw [satisfies_requirement, hpackages]; rfl
      | CanonicalUpdateCommand => rw [satisfies_requirement, hposition, hrefused]; rfl
      | KeepToolchain => rw [satisfies_requirement, hkeep]; rfl
    · rw [forM_eq_ok]
      intro mitigation _
      rw [check_mitigation_eq_ok]
      cases mitigation with
      | RequireExplicitPackages => rw [satisfies_mitigation, hpackages]; rfl
      | RejectBareUpdate => rw [satisfies_mitigation, hpackages]; rfl
      | UseCanonicalUpdateCommand => rw [satisfies_mitigation, hposition, hrefused]; rfl
      | IncludeKeepToolchain => rw [satisfies_mitigation, hkeep, hposition]; rfl

theorem path_str_isOk {message : String} {path : CanonicalPath} :
    (∃ value, path_str message path = .ok value) ↔ path.to_str.isSome = true := by
  unfold path_str
  cases path.to_str with
  | none => simp
  | some value => simp

/-- **The report.** A planned update has one when it meets the contract and its paths are
text. -/
theorem Planned.report_iff (h : Planned request plan) :
    (∃ report, lake_command_plan_report_v1 plan = .ok report) ↔
      "upgrade".toList ∉ request.packages ∧
        request.executable_observation.canonical_path.to_str.isSome = true ∧
        request.project_root.to_str.isSome = true := by
  obtain ⟨contract, hcontract, -⟩ := contract_read
  unfold lake_command_plan_report_v1
  rw [h.executable.1, ← h.cwd, ← h.verify_iff]
  constructor
  · rintro ⟨report, hreport⟩
    obtain ⟨⟨⟩, hverified, hreport⟩ := bind_eq_ok.mp hreport
    obtain ⟨executable, hexecutable, hreport⟩ := bind_eq_ok.mp hreport
    obtain ⟨cwd, hcwd, -⟩ := bind_eq_ok.mp hreport
    exact ⟨hverified, path_str_isOk.mp ⟨executable, hexecutable⟩, path_str_isOk.mp ⟨cwd, hcwd⟩⟩
  · rintro ⟨hverified, hexecutable, hcwd⟩
    obtain ⟨executable, hexecutable⟩ : ∃ value, path_str
        "Lake executable path is not valid UTF-8" plan.executable = .ok value :=
      path_str_isOk.mpr hexecutable
    obtain ⟨cwd, hcwd⟩ : ∃ value, path_str
        "Lake working directory is not valid UTF-8" plan.cwd = .ok value := path_str_isOk.mpr hcwd
    rw [hverified, hexecutable, hcwd, hcontract]
    exact ⟨_, rfl⟩

/-! ## The request and the preflight -/

/-- A plan with a report gets a request for every nonce and window. -/
theorem approval_request_ok {report : LakeCommandPlanReportV1} {nonce : Str} {issued expires : UInt64}
    (hreport : lake_command_plan_report_v1 plan = .ok report) (hnonce : valid_nonce nonce = true)
    (hwindow : valid_window issued expires) :
    ∃ approval, lake_command_approval_request_v1 plan nonce issued expires = .ok approval := by
  unfold lake_command_approval_request_v1
  rw [hreport, ensure_ok hnonce, ensure_ok hwindow]
  exact ⟨_, rfl⟩

/-- A request shows what it was asked for. -/
theorem approval_request_shows {approval : LakeCommandApprovalRequestV1} {nonce : Str}
    {issued expires : UInt64}
    (h : lake_command_approval_request_v1 plan nonce issued expires = .ok approval) :
    approval.nonce = nonce ∧ approval.issued_at_unix_ms = issued ∧
      approval.expires_at_unix_ms = expires ∧ valid_window issued expires := by
  unfold lake_command_approval_request_v1 at h
  obtain ⟨_, -, h⟩ := bind_eq_ok.mp h
  obtain ⟨⟨hwindow⟩, -, h⟩ := bind_eq_ok.mp h
  obtain ⟨report, -, h⟩ := bind_eq_ok.mp h
  rw [← Except.ok.inj h]
  exact ⟨rfl, rfl, rfl, hwindow⟩

/-- It verifies inside its window. -/
theorem approval_request_verifies {approval : LakeCommandApprovalRequestV1} {nonce : Str}
    {issued expires now : UInt64}
    (h : lake_command_approval_request_v1 plan nonce issued expires = .ok approval)
    (hfrom : issued.toNat ≤ now.toNat) (huntil : now.toNat < expires.toNat) :
    verify_lake_command_approval_request_v1 approval plan now = .ok () := by
  obtain ⟨hnonce, hissued, hexpires, -⟩ := approval_request_shows h
  unfold verify_lake_command_approval_request_v1
  rw [hnonce, hissued, hexpires]
  refine bind_eq_ok.mpr ⟨_, ensure_ok ⟨hfrom, huntil⟩ _, bind_eq_ok.mpr ⟨approval, h, ?_⟩⟩
  exact bind_eq_ok.mpr ⟨_, ensure_ok rfl _, rfl⟩

/-- The preflight passes for the observation that the plan was made with. -/
theorem Planned.preflight_ok (h : Planned request plan) {approval : LakeCommandApprovalRequestV1}
    {observed now : UInt64}
    (hverified : verify_lake_command_approval_request_v1 approval plan now = .ok ())
    (hcurrent : current_observation observed now) :
    ∃ preflight, lake_command_preflight_v1 approval plan request.executable_observation observed now =
      .ok preflight := by
  unfold lake_command_preflight_v1
  rw [hverified, ensure_ok hcurrent, ensure_ok ⟨h.observed_version, h.safe⟩, ensure_ok h.executable]
  exact ⟨_, rfl⟩

end Planned

/-! ## The result -/

/-- The plan passes the contract and is reported; for every nonce and window there is a
request, which verifies at every moment of the window, and the preflight succeeds then with a
current observation like the planner's. -/
structure Offered (request : LakeUpdatePlanRequestV1) (plan : LakeCommandPlanV1) : Prop where
  contract : verify_lake_update_plan_contract_v1 plan = .ok ()
  report : ∃ report, lake_command_plan_report_v1 plan = .ok report
  approval : ∀ nonce issued expires, valid_nonce nonce = true → valid_window issued expires →
    ∃ approval, lake_command_approval_request_v1 plan nonce issued expires = .ok approval ∧
      ∀ now : UInt64, issued.toNat ≤ now.toNat → now.toNat < expires.toNat →
        verify_lake_command_approval_request_v1 approval plan now = .ok () ∧
        ∀ observed, current_observation observed now →
          ∃ preflight, lake_command_preflight_v1 approval plan request.executable_observation
            observed now = .ok preflight

/-- **No refused plan.** What the planner offers is accepted by every later check exactly when
no package is named `upgrade` and both paths are text; in any case it offers the same plan for
the same packages in another order. -/
theorem plan_offered_iff {request : LakeUpdatePlanRequestV1} {plan : LakeCommandPlanV1}
    (h : plan_lake_update request = .ok plan) :
    (Offered request plan ∧ ∀ packages, packages.Perm request.packages →
        plan_lake_update { request with packages := packages } = .ok plan) ↔
      "upgrade".toList ∉ request.packages ∧
        request.executable_observation.canonical_path.to_str.isSome = true ∧
        request.project_root.to_str.isSome = true := by
  have hplanned := planned h
  constructor
  · rintro ⟨hoffered, -⟩
    exact hplanned.report_iff.mp hoffered.report
  · intro hgood
    obtain ⟨report, hreport⟩ := hplanned.report_iff.mpr hgood
    refine ⟨⟨hplanned.verify_iff.mpr hgood.1, ⟨report, hreport⟩, ?_⟩,
      fun packages hperm => plan_lake_update_perm h hperm⟩
    intro nonce issued expires hnonce hwindow
    obtain ⟨approval, happroval⟩ := approval_request_ok hreport hnonce hwindow
    refine ⟨approval, happroval, fun now hfrom huntil => ?_⟩
    have hverified := approval_request_verifies happroval hfrom huntil
    exact ⟨hverified, fun observed hcurrent => hplanned.preflight_ok hverified hcurrent⟩

/-! ## Requests for one package -/

section Sample

variable (name : Str)

def sample_revision : GitRevision := ⟨List.replicate 40 'a', by decide⟩

def sample_entry : PackageInventoryEntryV1 :=
  ⟨name, some (.Git sample_revision), none, none, none, .Unobserved⟩

/-- A project with one package that is declared, registered and not checked out. -/
def sample_inventory : PackageInventoryV1 where
  schema_version := 1
  project_id := Core.project_id "/work".toList
  project_path := "/work".toList
  toolchain := "leanprover/lean4:v4.29.0".toList
  manifest_sha256 := Sha256.repeated 0
  override_sha256 := none
  provider_registry_sha256 := none
  provider_override_sha256 := none
  packages := [sample_entry name]

def sample_observation : LakeExecutableObservationV1 where
  schema_version := 1
  canonical_path := ⟨as_bytes "/tools/bin/lake".toList, by decide⟩
  lake_version := SUPPORTED_LAKE_VERSION
  sha256 := Sha256.repeated 0
  byte_length := 1
  unix_mode := 0o755
  regular_file := true
  symlink_free := true

def sample_toolchain : CanonicalDirectory := ⟨as_bytes "/tools".toList, by decide⟩
def sample_project : CanonicalDirectory := ⟨as_bytes "/work".toList, by decide⟩

def sample_request : LakeUpdatePlanRequestV1 where
  managed_toolchain_root := sample_toolchain
  executable_observation := sample_observation
  project_root := sample_project
  inventory := sample_inventory name
  drift_report := report_dependency_drift (sample_inventory name)
  packages := [name]

variable {name}

theorem sample_snapshot (hname : valid_inventory_name name = true) :
    ∃ snapshot, package_inventory_snapshot_digest_v1 (sample_inventory name)
      (report_dependency_drift (sample_inventory name)) = .ok snapshot := by
  have hnames : ((sample_inventory name).packages.all fun package =>
        valid_inventory_name package.name) = true ∧
      ((sample_inventory name).packages.map PackageInventoryEntryV1.name).Nodup := by
    refine ⟨?_, List.nodup_singleton name⟩
    show (valid_inventory_name name && true) = true
    rw [hname]
    rfl
  have hpackages : ∃ texts, (sort_by_key PackageInventoryEntryV1.name
      (sample_inventory name).packages).mapM (snapshot_package
        (report_dependency_drift (sample_inventory name))) = .ok texts := by
    have hsort : sort_by_key PackageInventoryEntryV1.name (sample_inventory name).packages =
        (sample_inventory name).packages := rfl
    rw [hsort]
    unfold sample_inventory sample_entry snapshot_package report_dependency_drift
    simp [package_text, optional_path_text, provider_text, checkout_text, bind, Except.bind, pure,
      Except.pure]
  obtain ⟨texts, htexts⟩ := hpackages
  have hversions : (sample_inventory name).schema_version = 1 ∧
      (report_dependency_drift (sample_inventory name)).schema_version = 1 := ⟨rfl, rfl⟩
  have hids : (sample_inventory name).project_id =
        (report_dependency_drift (sample_inventory name)).project_id ∧
      (sample_inventory name).project_id =
        Core.project_id (sample_inventory name).project_path := ⟨rfl, rfl⟩
  have hdrifts : ((report_dependency_drift (sample_inventory name)).packages.map
      PackageDependencyDriftV1.name).Nodup := List.nodup_singleton name
  have hsame : (sort_by_key PackageInventoryEntryV1.name (sample_inventory name).packages).map
        PackageInventoryEntryV1.name =
      (sort_by_key PackageDependencyDriftV1.name
        (report_dependency_drift (sample_inventory name)).packages).map
        PackageDependencyDriftV1.name := rfl
  unfold package_inventory_snapshot_digest_v1
  refine exists_of_isOk ?_
  rw [ensure_ok hversions, ensure_ok hids, ensure_ok rfl, ensure_ok hnames, ensure_ok hdrifts,
    ensure_ok hsame, htexts]
  rfl

/-- A request for a package with a plain name is planned. -/
theorem sample_planned (hvalid : valid_package_selector name = true)
    (hname : valid_inventory_name name = true) :
    ∃ plan, plan_lake_update (sample_request name) = .ok plan := by
  obtain ⟨snapshot, hsnapshot⟩ := sample_snapshot hname
  have hversions : sample_observation.schema_version = 1 ∧
      sample_observation.lake_version = SUPPORTED_LAKE_VERSION := ⟨rfl, rfl⟩
  have hids : (sample_inventory name).project_id =
      (report_dependency_drift (sample_inventory name)).project_id := rfl
  have hlossy : "/work".toList = sample_project.to_string_lossy := by
    decide +kernel
  have hpath : (sample_inventory name).project_path = sample_project.to_string_lossy := hlossy
  have hinside : sample_observation.canonical_path.starts_with sample_toolchain = true ∧
      sample_observation.canonical_path.file_name = some (as_bytes "lake".toList) := by
    decide +kernel
  have hsafe : safe_executable sample_observation.regular_file sample_observation.symlink_free
      sample_observation.byte_length sample_observation.unix_mode = true := by
    decide
  have hpackages : [name] ≠ [] := List.cons_ne_nil _ _
  have hselected : [name].foldlM (select_package (sample_inventory name)) [] = .ok [name] := by
    refine select_packages_eq_ok.mpr ⟨?_, List.nodup_singleton _, fun _ _ => List.not_mem_nil, rfl⟩
    intro package hmem
    rw [List.mem_singleton.mp hmem]
    exact ⟨hvalid, sample_entry name, List.find?_cons_of_pos (decide_eq_true rfl), rfl⟩
  refine exists_of_isOk ?_
  unfold plan_lake_update sample_request
  dsimp only
  rw [ensure_ok hversions, ensure_ok hids, ensure_ok hpath, hsnapshot, ensure_ok hinside,
    ensure_ok hsafe, ensure_ok hpackages, hselected]
  rfl

/-- The plan for `batteries` passes. -/
theorem batteries_plan_offered : ∃ plan, plan_lake_update (sample_request "batteries".toList) =
    .ok plan ∧ Offered (sample_request "batteries".toList) plan := by
  obtain ⟨plan, hplan⟩ := sample_planned (by decide : valid_package_selector "batteries".toList = true)
    (by decide)
  have htext : (sample_request "batteries".toList).executable_observation.canonical_path.to_str.isSome
      = true ∧ (sample_request "batteries".toList).project_root.to_str.isSome = true := by
    decide +kernel
  exact ⟨plan, hplan, ((plan_offered_iff hplan).mpr ⟨by decide, htext⟩).1⟩

/-- The plan for a package named `upgrade` is refused by the contract. -/
theorem upgrade_plan_refused : ∃ plan, plan_lake_update (sample_request "upgrade".toList) =
    .ok plan ∧ verify_lake_update_plan_contract_v1 plan ≠ .ok () := by
  obtain ⟨plan, hplan⟩ := sample_planned (by decide : valid_package_selector "upgrade".toList = true)
    (by decide)
  refine ⟨plan, hplan, fun hverified => ?_⟩
  exact (planned hplan).verify_iff.mp hverified List.mem_cons_self

end Sample

end LeanBun.Plan
