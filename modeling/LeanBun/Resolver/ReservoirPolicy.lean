/-
The policy for Reservoir bindings.

What was observed for a package is compared with the binding that is active: it may be the
same, differ in the metadata or in the content, or move the version to another commit, which
is accepted with an authorization for exactly this move only. The outcome is a function of
the two bindings and of the pair that the authorization was made for, as long as the
identities of these bindings do not collide.
-/
import LeanBun.Core.Evaluate
import LeanBun.Lock.ReservoirText
import LeanBun.Lock.SourceUrl

set_option autoImplicit false

namespace LeanBun.Resolver

open LeanBun.Lib LeanBun.Core LeanBun.Lock LeanBun.Lock.Reservoir

/-! ## Authorizations and outcomes -/

def MAX_RESERVOIR_OBSERVATIONS_V1 : ℕ := 4096

inductive ReservoirPolicyErrorKindV1 where
  | InvalidScope
  | InvalidAuthorization
  | LimitExceeded
deriving DecidableEq

structure ReservoirPolicyErrorV1 where
  kind : ReservoirPolicyErrorKindV1
  message : String
deriving DecidableEq

abbrev PolicyResult (α : Type) := Except ReservoirPolicyErrorV1 α

/-- `ReservoirRebindAuthorizationV1`. -/
structure ReservoirRebindAuthorizationV1 where
  registry : ReservoirRegistryIdentityV1
  package : PackageKeyV1
  requested_version : Str
  old_commit : Str
  new_commit : Str
  observed_metadata_sha256 : Sha256
  active_binding_identity : Sha256
  proposed_binding_identity : Sha256
  identity : Sha256
deriving DecidableEq

/-- `ReservoirBindingOutcomeV1`. -/
inductive ReservoirBindingOutcomeV1 where
  | FirstResolutionPending (proposed_binding_identity : Sha256)
  | StableBinding (active_binding_identity : Sha256)
  | AmbiguousCandidates (observation_count : ℕ)
  | MetadataDrift (active_binding_identity observed_metadata_sha256 : Sha256)
  | VersionRebound (active_binding_identity proposed_binding_identity : Sha256)
  | DisappearedBinding (active_binding_identity : Option Sha256)
  | ContentMismatch (active_binding_identity proposed_binding_identity : Sha256)
  | ExplicitRebindAccepted (authorization_identity proposed_binding_identity : Sha256)
deriving DecidableEq

/-- The condition of `require_same_scope`. -/
def same_scope (active proposed : ReservoirBindingV1) : Prop :=
  active.registry = proposed.registry ∧ active.package = proposed.package ∧
    active.requested_version = proposed.requested_version

instance (active proposed : ReservoirBindingV1) : Decidable (same_scope active proposed) :=
  inferInstanceAs (Decidable (_ ∧ _ ∧ _))

/-- `require_same_scope`. -/
def require_same_scope (active proposed : ReservoirBindingV1) : PolicyResult Unit :=
  if same_scope active proposed then .ok ()
  else .error ⟨.InvalidScope,
    "Reservoir observation differs in registry, package or requested version scope"⟩

/-- `authorization_identity`. -/
def authorization_identity (active proposed : ReservoirBindingV1) : Sha256 :=
  digest (as_bytes "leanbun-reservoir-rebind-authorization-v1\x00".toList ++
    (active.registry.sha256.bytes ++ (string_bytes active.package.scope ++
      (string_bytes active.package.name ++ (string_bytes active.requested_version ++
        (string_bytes active.exact_commit ++ (string_bytes proposed.exact_commit ++
          (proposed.metadata_sha256.bytes ++ (active.identity.bytes ++
            proposed.identity.bytes)))))))))

/-- `ReservoirRebindAuthorizationV1::new`. -/
def ReservoirRebindAuthorizationV1.new (active proposed : ReservoirBindingV1) :
    PolicyResult ReservoirRebindAuthorizationV1 := do
  let _ ← require_same_scope active proposed
  let _ ← ensure (active.exact_commit ≠ proposed.exact_commit) ⟨.InvalidAuthorization,
    "explicit Reservoir rebind requires a changed exact commit"⟩
  return {
    registry := active.registry
    package := active.package
    requested_version := active.requested_version
    old_commit := active.exact_commit
    new_commit := proposed.exact_commit
    observed_metadata_sha256 := proposed.metadata_sha256
    active_binding_identity := active.identity
    proposed_binding_identity := proposed.identity
    identity := authorization_identity active proposed }

/-- `ReservoirRebindAuthorizationV1::matches`. -/
def ReservoirRebindAuthorizationV1.matches (authorization : ReservoirRebindAuthorizationV1)
    (active proposed : ReservoirBindingV1) : Bool :=
  decide (authorization.registry = active.registry) &&
    decide (authorization.registry = proposed.registry) &&
    decide (authorization.package = active.package) &&
    decide (authorization.package = proposed.package) &&
    decide (authorization.requested_version = active.requested_version) &&
    decide (authorization.requested_version = proposed.requested_version) &&
    decide (authorization.old_commit = active.exact_commit) &&
    decide (authorization.new_commit = proposed.exact_commit) &&
    decide (authorization.observed_metadata_sha256 = proposed.metadata_sha256) &&
    decide (authorization.active_binding_identity = active.identity) &&
    decide (authorization.proposed_binding_identity = proposed.identity)

/-! ## The policy -/

/-- The end of `evaluate_reservoir_binding_v1` without an active binding. -/
def evaluate_first (observations : List ReservoirBindingV1)
    (authorization : Option ReservoirRebindAuthorizationV1) :
    PolicyResult ReservoirBindingOutcomeV1 :=
  if authorization.isSome then .error ⟨.InvalidAuthorization,
    "explicit rebind authorization cannot create a first binding"⟩
  else match observations with
    | [] => .ok (.DisappearedBinding none)
    | [proposed] => .ok (.FirstResolutionPending proposed.identity)
    | _ => .ok (.AmbiguousCandidates observations.length)

/-- The content of two bindings of one commit differs. -/
def content_differs (active proposed : ReservoirBindingV1) : Prop :=
  active.resolved_url ≠ proposed.resolved_url ∨
    active.download_integrity ≠ proposed.download_integrity ∨
    active.source_tree_sha256 ≠ proposed.source_tree_sha256 ∨
    active.selected_source_identity ≠ proposed.selected_source_identity

instance (active proposed : ReservoirBindingV1) : Decidable (content_differs active proposed) :=
  inferInstanceAs (Decidable (_ ∨ _ ∨ _ ∨ _))

/-- The end of `evaluate_reservoir_binding_v1` with one observation. -/
def evaluate_proposed (active proposed : ReservoirBindingV1)
    (authorization : Option ReservoirRebindAuthorizationV1) :
    PolicyResult ReservoirBindingOutcomeV1 :=
  if proposed.identity = active.identity then
    if authorization.isSome then .error ⟨.InvalidAuthorization,
      "explicit rebind authorization cannot be applied to a stable binding"⟩
    else .ok (.StableBinding active.identity)
  else match authorization with
    | some authorization =>
      if authorization.matches active proposed = false then .error ⟨.InvalidAuthorization,
        "explicit rebind authorization does not match active and proposed bindings"⟩
      else .ok (.ExplicitRebindAccepted authorization.identity proposed.identity)
    | none =>
      if active.exact_commit ≠ proposed.exact_commit then
        .ok (.VersionRebound active.identity proposed.identity)
      else if content_differs active proposed then
        .ok (.ContentMismatch active.identity proposed.identity)
      else .ok (.MetadataDrift active.identity proposed.metadata_sha256)

/-- The end of `evaluate_reservoir_binding_v1` with an active binding. -/
def evaluate_active (active : ReservoirBindingV1) (observations : List ReservoirBindingV1)
    (authorization : Option ReservoirRebindAuthorizationV1) :
    PolicyResult ReservoirBindingOutcomeV1 := do
  let _ ← observations.mapM (require_same_scope active)
  match observations with
  | [proposed] => evaluate_proposed active proposed authorization
  | _ =>
    if authorization.isSome then throw ⟨.InvalidAuthorization,
      "explicit rebind authorization requires one unambiguous observation"⟩
    else return if observations.isEmpty then .DisappearedBinding (some active.identity)
      else .AmbiguousCandidates observations.length

/-- `evaluate_reservoir_binding_v1`. -/
def evaluate_reservoir_binding_v1 (active : Option ReservoirBindingV1)
    (observations : List ReservoirBindingV1)
    (authorization : Option ReservoirRebindAuthorizationV1) :
    PolicyResult ReservoirBindingOutcomeV1 :=
  if MAX_RESERVOIR_OBSERVATIONS_V1 < observations.length then
    .error ⟨.LimitExceeded, "Reservoir observation count exceeds limit"⟩
  else match active with
    | none => evaluate_first observations authorization
    | some active => evaluate_active active observations authorization

/-! ## What an authorization says -/

variable {active proposed : ReservoirBindingV1} {observations : List ReservoirBindingV1}
  {authorization : ReservoirRebindAuthorizationV1}

theorem require_same_scope_eq_ok :
    require_same_scope active proposed = .ok () ↔ same_scope active proposed := by
  unfold require_same_scope
  by_cases h : same_scope active proposed
  · rw [if_pos h]
    exact iff_of_true rfl h
  · rw [if_neg h]
    exact iff_of_false (by simp) h

/-- Identities that do not collide tell bindings apart. -/
theorem identity_eq_iff {a b : ReservoirBindingV1}
    (h : NoCollision (binding_bytes a) (binding_bytes b)) : a.identity = b.identity ↔ a = b :=
  ⟨fun heq => binding_bytes_injective (h heq), congrArg _⟩

/-- **The constructor** takes two bindings of one scope with different commits, and keeps
their identities. -/
theorem authorization_new_eq_ok (h : ReservoirRebindAuthorizationV1.new active proposed =
      .ok authorization) :
    same_scope active proposed ∧ active.exact_commit ≠ proposed.exact_commit ∧
      authorization.active_binding_identity = active.identity ∧
      authorization.proposed_binding_identity = proposed.identity := by
  unfold ReservoirRebindAuthorizationV1.new at h
  obtain ⟨_, hscope, h⟩ := bind_eq_ok.mp h
  obtain ⟨hcommit, -, h⟩ := bind_eq_ok.mp h
  cases h
  exact ⟨require_same_scope_eq_ok.mp hscope, hcommit.down, rfl, rfl⟩

/-- An authorization matches the pair that it was made for. -/
theorem matches_new (h : ReservoirRebindAuthorizationV1.new active proposed = .ok authorization) :
    authorization.matches active proposed = true := by
  obtain ⟨⟨hregistry, hpackage, hversion⟩, -⟩ := authorization_new_eq_ok h
  unfold ReservoirRebindAuthorizationV1.new at h
  obtain ⟨_, -, h⟩ := bind_eq_ok.mp h
  obtain ⟨_, -, h⟩ := bind_eq_ok.mp h
  cases h
  unfold ReservoirRebindAuthorizationV1.matches
  simp only [hregistry, hpackage, hversion, decide_true, Bool.and_self]

/-- **A match** is with the pair that the authorization was made for. -/
theorem matches_made {x y : ReservoirBindingV1}
    (hmade : ReservoirRebindAuthorizationV1.new x y = .ok authorization)
    (hactive : NoCollision (binding_bytes x) (binding_bytes active))
    (hproposed : NoCollision (binding_bytes y) (binding_bytes proposed))
    (h : authorization.matches active proposed = true) : x = active ∧ y = proposed := by
  obtain ⟨-, -, hx, hy⟩ := authorization_new_eq_ok hmade
  unfold ReservoirRebindAuthorizationV1.matches at h
  simp only [Bool.and_eq_true, decide_eq_true_eq] at h
  obtain ⟨⟨-, ha⟩, hp⟩ := h
  exact ⟨(identity_eq_iff hactive).mp (hx.symm.trans ha), (identity_eq_iff hproposed).mp (hy.symm.trans hp)⟩

/-! ## What the policy decides -/

/-- **The scopes** of all observations are checked before anything is compared. -/
theorem scopes_eq (active : ReservoirBindingV1) (observations : List ReservoirBindingV1) :
    observations.mapM (require_same_scope active) =
      if ∀ observation ∈ observations, same_scope active observation then
        .ok (observations.map fun _ => ())
      else .error ⟨.InvalidScope,
        "Reservoir observation differs in registry, package or requested version scope"⟩ := by
  induction observations with
  | nil => rw [if_pos (by simp)]; rfl
  | cons observation observations ih =>
    rw [List.mapM_cons, ih]
    by_cases hhead : same_scope active observation
    · rw [require_same_scope_eq_ok.mpr hhead]
      by_cases htail : ∀ other ∈ observations, same_scope active other
      · rw [if_pos htail, if_pos (List.forall_mem_cons.mpr ⟨hhead, htail⟩)]
        rfl
      · rw [if_neg htail, if_neg fun h => htail (List.forall_mem_cons.mp h).2]
        rfl
    · rw [if_neg fun h => hhead (List.forall_mem_cons.mp h).1, require_same_scope, if_neg hhead]
      rfl

/-- Outcomes that compare one observation with the active binding. -/
def compares : ReservoirBindingOutcomeV1 → Bool
  | .StableBinding _ => true
  | .MetadataDrift _ _ => true
  | .VersionRebound _ _ => true
  | .ContentMismatch _ _ => true
  | .ExplicitRebindAccepted _ _ => true
  | _ => false

/-- **A comparison** is one with a single observation of the same scope. -/
theorem evaluate_compares {authorization : Option ReservoirRebindAuthorizationV1}
    {outcome : ReservoirBindingOutcomeV1} (hcompares : compares outcome = true) :
    evaluate_reservoir_binding_v1 (some active) observations authorization = .ok outcome ↔
      ∃ proposed, observations = [proposed] ∧ same_scope active proposed ∧
        evaluate_proposed active proposed authorization = .ok outcome := by
  constructor
  · intro h
    unfold evaluate_reservoir_binding_v1 at h
    by_cases hlimit : MAX_RESERVOIR_OBSERVATIONS_V1 < observations.length
    · rw [if_pos hlimit] at h
      exact absurd h (by simp)
    rw [if_neg hlimit] at h
    dsimp only at h
    unfold evaluate_active at h
    rw [scopes_eq] at h
    by_cases hscopes : ∀ observation ∈ observations, same_scope active observation
    · rw [if_pos hscopes] at h
      obtain ⟨_, -, h⟩ := bind_eq_ok.mp h
      match observations with
      | [] =>
        dsimp only at h
        split at h
        · cases h
        · rw [← Except.ok.inj h] at hcompares
          exact absurd hcompares (by simp [compares])
      | [proposed] => exact ⟨proposed, rfl, hscopes proposed List.mem_cons_self, h⟩
      | first :: second :: rest =>
        dsimp only at h
        split at h
        · cases h
        · rw [← Except.ok.inj h] at hcompares
          exact absurd hcompares (by simp [compares])
    · rw [if_neg hscopes] at h
      cases h
  · rintro ⟨proposed, rfl, hscope, h⟩
    show evaluate_active active [proposed] authorization = _
    unfold evaluate_active
    rw [scopes_eq, if_pos (List.forall_mem_singleton.mpr hscope)]
    exact h

/-- **The order of the observations** makes no difference, with or without an active
binding. -/
theorem evaluate_perm (active : Option ReservoirBindingV1)
    {observations observations' : List ReservoirBindingV1} (hperm : observations.Perm observations')
    (authorization : Option ReservoirRebindAuthorizationV1) :
    evaluate_reservoir_binding_v1 active observations authorization =
      evaluate_reservoir_binding_v1 active observations' authorization := by
  match observations, observations', hperm with
  | [], _, hperm => rw [hperm.nil_eq]
  | [_], _, hperm => rw [hperm.singleton_eq]
  | _ :: _ :: _, [], hperm => exact absurd hperm.length_eq (by simp)
  | _ :: _ :: _, [_], hperm => exact absurd hperm.length_eq (by simp)
  | a :: b :: l, c :: d :: l', hperm =>
    -- with more than one, only their number and their scopes are looked at
    unfold evaluate_reservoir_binding_v1 evaluate_active evaluate_first
    have hscopes (active : ReservoirBindingV1) :
        (∀ o ∈ a :: b :: l, same_scope active o) ↔ ∀ o ∈ c :: d :: l', same_scope active o :=
      forall_congr' fun o => by rw [hperm.mem_iff]
    simp only [scopes_eq, hscopes, hperm.length_eq, List.isEmpty_cons]
    cases active with
    | none => rfl
    | some active =>
      by_cases hall : ∀ o ∈ c :: d :: l', same_scope active o
      · simp only [if_pos hall]
        rfl
      · simp only [if_neg hall]

/-! ## One observation -/

/-- What the policy answers to one observation, case by case. -/
inductive Decides (active proposed : ReservoirBindingV1) :
    Option ReservoirRebindAuthorizationV1 → ReservoirBindingOutcomeV1 → Prop
  | stable (hsame : proposed.identity = active.identity) :
      Decides active proposed none (.StableBinding active.identity)
  | accepted (hmoved : proposed.identity ≠ active.identity) (a : ReservoirRebindAuthorizationV1)
      (hmatches : a.matches active proposed = true) :
      Decides active proposed (some a) (.ExplicitRebindAccepted a.identity proposed.identity)
  | rebound (hmoved : proposed.identity ≠ active.identity)
      (hcommit : active.exact_commit ≠ proposed.exact_commit) :
      Decides active proposed none (.VersionRebound active.identity proposed.identity)
  | mismatch (hmoved : proposed.identity ≠ active.identity)
      (hcommit : active.exact_commit = proposed.exact_commit)
      (hcontent : content_differs active proposed) :
      Decides active proposed none (.ContentMismatch active.identity proposed.identity)
  | drift (hmoved : proposed.identity ≠ active.identity)
      (hcommit : active.exact_commit = proposed.exact_commit)
      (hcontent : ¬content_differs active proposed) :
      Decides active proposed none (.MetadataDrift active.identity proposed.metadata_sha256)

/-- **The cases are exhaustive**, and exclude each other. -/
theorem evaluate_proposed_eq_ok {authorization : Option ReservoirRebindAuthorizationV1}
    {outcome : ReservoirBindingOutcomeV1} :
    evaluate_proposed active proposed authorization = .ok outcome ↔
      Decides active proposed authorization outcome := by
  unfold evaluate_proposed
  constructor
  · intro h
    by_cases hsame : proposed.identity = active.identity
    · rw [if_pos hsame] at h
      cases authorization with
      | none =>
        cases h
        exact .stable hsame
      | some a => cases h
    · rw [if_neg hsame] at h
      cases authorization with
      | some a =>
        by_cases hmatches : a.matches active proposed = false
        · simp only [if_pos hmatches] at h
          cases h
        · simp only [if_neg hmatches] at h
          cases h
          exact .accepted hsame a (Bool.not_eq_false _ ▸ hmatches)
      | none =>
        by_cases hcommit : active.exact_commit ≠ proposed.exact_commit
        · simp only [if_pos hcommit] at h
          cases h
          exact .rebound hsame hcommit
        · simp only [if_neg hcommit] at h
          by_cases hcontent : content_differs active proposed
          · rw [if_pos hcontent] at h
            cases h
            exact .mismatch hsame (not_not.mp hcommit) hcontent
          · rw [if_neg hcontent] at h
            cases h
            exact .drift hsame (not_not.mp hcommit) hcontent
  · intro h
    cases h with
    | stable hsame =>
      rw [if_pos hsame]
      rfl
    | accepted hmoved a hmatches => simp only [if_neg hmoved, hmatches, Bool.true_eq_false, if_false]
    | rebound hmoved hcommit => simp only [if_neg hmoved, if_pos hcommit]
    | mismatch hmoved hcommit hcontent =>
      simp only [if_neg hmoved, if_neg (not_not_intro hcommit), if_pos hcontent]
    | drift hmoved hcommit hcontent =>
      simp only [if_neg hmoved, if_neg (not_not_intro hcommit), if_neg hcontent]

/-- A binding that differs from the active one in its metadata alone. -/
def DriftsFrom (active proposed : ReservoirBindingV1) : Prop :=
  proposed.metadata_sha256 ≠ active.metadata_sha256 ∧
    proposed = { active with metadata_sha256 := proposed.metadata_sha256 }

/-- Bindings of one scope with the same content differ in their metadata alone. -/
theorem drifts_of_content (hscope : same_scope active proposed) (hne : proposed ≠ active)
    (hcommit : active.exact_commit = proposed.exact_commit)
    (hcontent : ¬content_differs active proposed) : DriftsFrom active proposed := by
  unfold content_differs at hcontent
  push Not at hcontent
  obtain ⟨hurl, hintegrity, htree, hselected⟩ := hcontent
  obtain ⟨hregistry, hpackage, hversion⟩ := hscope
  have hrest : proposed = { active with metadata_sha256 := proposed.metadata_sha256 } := by
    cases active
    cases proposed
    cases hregistry
    cases hpackage
    cases hversion
    cases hcommit
    cases hurl
    cases hintegrity
    cases htree
    cases hselected
    rfl
  refine ⟨fun hsame => hne ?_, hrest⟩
  rw [hrest, hsame]

/-- A binding that drifts has the scope and the content of the active one. -/
theorem DriftsFrom.content (h : DriftsFrom active proposed) : same_scope active proposed ∧
    proposed ≠ active ∧ active.exact_commit = proposed.exact_commit ∧
    ¬content_differs active proposed := by
  obtain ⟨hmetadata, hrest⟩ := h
  refine ⟨?_, fun hsame => hmetadata (by rw [hsame]), ?_, ?_⟩
  · rw [hrest]
    exact ⟨rfl, rfl, rfl⟩
  · rw [hrest]
  · rw [hrest]
    unfold content_differs
    simp

/-! ## The three decisions -/

section Decisions

variable {authorization : Option ReservoirRebindAuthorizationV1}
  (hobserved : ∀ o ∈ observations, NoCollision (binding_bytes o) (binding_bytes active))

include hobserved

/-- **Stable** is the one observation of the active binding itself. -/
theorem stable_iff : (∃ identity, evaluate_reservoir_binding_v1 (some active) observations
      authorization = .ok (.StableBinding identity)) ↔
    observations = [active] ∧ authorization = none := by
  constructor
  · rintro ⟨identity, h⟩
    obtain ⟨proposed, rfl, -, h⟩ := (evaluate_compares rfl).mp h
    cases evaluate_proposed_eq_ok.mp h with
    | stable hsame =>
      rw [(identity_eq_iff (hobserved proposed List.mem_cons_self)).mp hsame]
      exact ⟨rfl, rfl⟩
  · rintro ⟨rfl, rfl⟩
    refine ⟨active.identity, (evaluate_compares rfl).mpr ⟨active, rfl, ⟨rfl, rfl, rfl⟩, ?_⟩⟩
    exact evaluate_proposed_eq_ok.mpr (.stable rfl)

/-- **Drift** is one observation that differs in the metadata and in nothing else. -/
theorem drift_iff : (∃ identity metadata, evaluate_reservoir_binding_v1 (some active) observations
      authorization = .ok (.MetadataDrift identity metadata)) ↔
    ∃ proposed, observations = [proposed] ∧ DriftsFrom active proposed ∧ authorization = none := by
  constructor
  · rintro ⟨identity, metadata, h⟩
    obtain ⟨proposed, rfl, hscope, h⟩ := (evaluate_compares rfl).mp h
    cases evaluate_proposed_eq_ok.mp h with
    | drift hmoved hcommit hcontent =>
      have hne : proposed ≠ active := fun heq => hmoved (congrArg _ heq)
      exact ⟨proposed, rfl, drifts_of_content hscope hne hcommit hcontent, rfl⟩
  · rintro ⟨proposed, rfl, hdrifts, rfl⟩
    obtain ⟨hscope, hne, hcommit, hcontent⟩ := hdrifts.content
    have hmoved : proposed.identity ≠ active.identity := fun heq =>
      hne ((identity_eq_iff (hobserved proposed List.mem_cons_self)).mp heq)
    refine ⟨active.identity, proposed.metadata_sha256,
      (evaluate_compares rfl).mpr ⟨proposed, rfl, hscope, ?_⟩⟩
    exact evaluate_proposed_eq_ok.mpr (.drift hmoved hcommit hcontent)

/-- **Acceptance** of an authorization is for the pair that it was made for. -/
theorem accepted_iff {a : ReservoirRebindAuthorizationV1} {x y : ReservoirBindingV1}
    (hauthorization : authorization = some a)
    (hmade : ReservoirRebindAuthorizationV1.new x y = .ok a)
    (hactive : NoCollision (binding_bytes x) (binding_bytes active))
    (hproposed : ∀ o ∈ observations, NoCollision (binding_bytes y) (binding_bytes o)) :
    (∃ identity proposed_identity, evaluate_reservoir_binding_v1 (some active) observations
        authorization = .ok (.ExplicitRebindAccepted identity proposed_identity)) ↔
      x = active ∧ observations = [y] := by
  obtain ⟨hscope, hcommit, -⟩ := authorization_new_eq_ok hmade
  constructor
  · rintro ⟨identity, proposed_identity, h⟩
    obtain ⟨proposed, rfl, -, h⟩ := (evaluate_compares rfl).mp h
    subst hauthorization
    cases evaluate_proposed_eq_ok.mp h with
    | accepted hmoved a hmatches =>
      obtain ⟨rfl, rfl⟩ := matches_made hmade hactive (hproposed proposed List.mem_cons_self) hmatches
      exact ⟨rfl, rfl⟩
  · rintro ⟨rfl, rfl⟩
    subst hauthorization
    have hmoved : y.identity ≠ x.identity := fun heq => hcommit (by
      rw [(identity_eq_iff (hobserved y List.mem_cons_self)).mp heq])
    refine ⟨a.identity, y.identity, (evaluate_compares rfl).mpr ⟨y, rfl, hscope, ?_⟩⟩
    exact evaluate_proposed_eq_ok.mpr (.accepted hmoved a (matches_new hmade))

end Decisions

/-- What is given to the policy, with nothing that collides: the identities of the observed
bindings with that of the active one, and those of the pair that an authorization was made
for with both. -/
structure ToldApart (active : ReservoirBindingV1) (observations : List ReservoirBindingV1)
    (authorization : Option ReservoirRebindAuthorizationV1) : Prop where
  observed : ∀ o ∈ observations, NoCollision (binding_bytes o) (binding_bytes active)
  made : ∀ a ∈ authorization, ∃ x y, ReservoirRebindAuthorizationV1.new x y = .ok a ∧
    NoCollision (binding_bytes x) (binding_bytes active) ∧
    ∀ o ∈ observations, NoCollision (binding_bytes y) (binding_bytes o)

/-- **No silent move.** With an active binding, the outcome is stable exactly for the one
observation of this binding, and a drift exactly for one that differs in the metadata digest
and nothing else. A rebinding is accepted exactly when the one observation has another commit
and the authorization is the one that `new` makes for the pair; it is accepted for no other
pair than the one it was made for. The order of the observations makes no difference. -/
theorem reservoir_never_moves_silently (active : ReservoirBindingV1)
    (observations : List ReservoirBindingV1)
    (authorization : Option ReservoirRebindAuthorizationV1)
    (htold : ToldApart active observations authorization) :
    ((∃ identity, evaluate_reservoir_binding_v1 (some active) observations authorization =
        .ok (.StableBinding identity)) ↔ observations = [active] ∧ authorization = none) ∧
    ((∃ identity metadata, evaluate_reservoir_binding_v1 (some active) observations
        authorization = .ok (.MetadataDrift identity metadata)) ↔
      ∃ proposed, observations = [proposed] ∧ DriftsFrom active proposed ∧
        authorization = none) ∧
    ((∃ identity proposed_identity, evaluate_reservoir_binding_v1 (some active) observations
        authorization = .ok (.ExplicitRebindAccepted identity proposed_identity)) ↔
      ∃ proposed, observations = [proposed] ∧ active.exact_commit ≠ proposed.exact_commit ∧
        ∃ a, authorization = some a ∧
          ReservoirRebindAuthorizationV1.new active proposed = .ok a) ∧
    (∀ a x y identity proposed_identity, authorization = some a →
      ReservoirRebindAuthorizationV1.new x y = .ok a →
      NoCollision (binding_bytes x) (binding_bytes active) →
      (∀ o ∈ observations, NoCollision (binding_bytes y) (binding_bytes o)) →
      evaluate_reservoir_binding_v1 (some active) observations authorization =
        .ok (.ExplicitRebindAccepted identity proposed_identity) →
      x = active ∧ observations = [y]) ∧
    ∀ observations', observations.Perm observations' →
      evaluate_reservoir_binding_v1 (some active) observations authorization =
        evaluate_reservoir_binding_v1 (some active) observations' authorization := by
  refine ⟨stable_iff htold.observed, drift_iff htold.observed, ⟨?_, ?_⟩, ?_,
    fun _ hperm => evaluate_perm (some active) hperm authorization⟩
  · rintro ⟨identity, proposed_identity, h⟩
    have hsome : ∃ a, authorization = some a := by
      obtain ⟨proposed, -, -, hone⟩ := (evaluate_compares rfl).mp h
      cases evaluate_proposed_eq_ok.mp hone with
      | accepted hmoved a hmatches => exact ⟨a, rfl⟩
    obtain ⟨a, ha⟩ := hsome
    obtain ⟨x, y, hmade, hx, hy⟩ := htold.made a ha
    obtain ⟨rfl, rfl⟩ := (accepted_iff htold.observed ha hmade hx hy).mp
      ⟨identity, proposed_identity, h⟩
    exact ⟨y, rfl, (authorization_new_eq_ok hmade).2.1, a, ha, hmade⟩
  · rintro ⟨proposed, rfl, -, a, ha, hmade⟩
    have hboth := htold.observed proposed List.mem_cons_self
    refine (accepted_iff htold.observed ha hmade (fun _ => rfl) fun o ho => ?_).mpr ⟨rfl, rfl⟩
    rw [List.mem_singleton.mp ho]
    exact fun _ => rfl
  · intro a x y identity proposed_identity ha hmade hx hy h
    exact (accepted_iff htold.observed ha hmade hx hy).mp ⟨identity, proposed_identity, h⟩

/-! ## A rebinding -/

/-- The binding of a version to a commit. -/
def sample_binding : ReservoirBindingV1 :=
  ⟨⟨Sha256.repeated 7⟩, ⟨"s".toList, "p".toList, by decide, by decide⟩, "v1".toList,
    Sha256.repeated 4, plain_url, List.replicate 40 '1', Sha256.repeated 1,
    Sha256.repeated 2, Sha256.repeated 3, double_git_binding.version_valid,
    ones_revision_valid⟩

/-- The same version at another commit. -/
def sample_moved : ReservoirBindingV1 :=
  { sample_binding with exact_commit := List.replicate 40 '2', commit_valid := by decide }

theorem sample_identities_differ : sample_moved.identity ≠ sample_binding.identity := by
  unfold ReservoirBindingV1.identity
  simp only [digest_eq_evaluate]
  decide +kernel

theorem reservoir_never_moves_silently_sample : ∃ a identity proposed_identity,
    ReservoirRebindAuthorizationV1.new sample_binding sample_moved = .ok a ∧
    evaluate_reservoir_binding_v1 (some sample_binding) [sample_moved] (some a) =
      .ok (.ExplicitRebindAccepted identity proposed_identity) := by
  obtain ⟨a, ha⟩ : ∃ a, ReservoirRebindAuthorizationV1.new sample_binding sample_moved = .ok a :=
    ⟨_, rfl⟩
  have htold : ToldApart sample_binding [sample_moved] (some a) := by
    refine ⟨fun o ho => ?_, fun b hb => ⟨sample_binding, sample_moved, ?_, fun _ => rfl, fun o ho => ?_⟩⟩
    · rw [List.mem_singleton.mp ho]
      exact fun heq => absurd heq sample_identities_differ
    · rw [← Option.some.inj hb]
      exact ha
    · rw [List.mem_singleton.mp ho]
      exact fun _ => rfl
  have hcommit : sample_binding.exact_commit ≠ sample_moved.exact_commit := by decide
  obtain ⟨identity, proposed_identity, h⟩ :=
    (reservoir_never_moves_silently sample_binding [sample_moved] (some a) htold).2.2.1.mpr
      ⟨sample_moved, rfl, hcommit, a, rfl, ha⟩
  exact ⟨a, identity, proposed_identity, ha, h⟩

end LeanBun.Resolver
