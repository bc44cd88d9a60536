/-
The order of the candidates.

The registry is sorted by key and identity before anything is looked up in it. Two
candidates that agree in both are refused in every order; without such a pair every order
is sorted to the same registry.
-/
import LeanBun.Resolver.Frozen

set_option autoImplicit false

namespace LeanBun.Resolver

open LeanBun.Lib LeanBun.Core LeanBun.Lock LeanBun.Bridge

variable {candidates candidates' : List LeanPackageCandidateV1}

/-- Candidates that agree in key and identity are found next to each other. -/
theorem duplicate_identity_of_key (h : ¬(candidates.map candidate_key).Nodup) :
    ¬adjacent_equal (fun candidate => candidate.identity.key)
      (sort_by_key candidate_key candidates) = false := by
  intro hadj
  have hfine : ∀ a b : LeanPackageCandidateV1, candidate_key a = candidate_key b →
      a.identity.key = b.identity.key := by
    intro a b hab
    have hpair : (a.key, a.identity.key) = (b.key, b.identity.key) := toLex.injective hab
    exact congrArg Prod.snd hpair
  exact h ((adjacent_equal_sort_iff candidate_key).mp (adjacent_equal_mono hfine hadj))

/-- **Order independence of the resolver.** Permuted candidates give the same graph, with
the same identity, or the same error with the same conflict. -/
theorem resolve_candidate_order (request : LeanResolutionRequestV1)
    (candidates candidates' : List LeanPackageCandidateV1) (h : candidates.Perm candidates') :
    resolve_lean_dependencies_v1 request candidates =
      resolve_lean_dependencies_v1 request candidates' := by
  have hkeys : (candidates.map candidate_key).Perm (candidates'.map candidate_key) := h.map _
  by_cases hnodup : (candidates.map candidate_key).Nodup
  · have hsorted := sort_by_key_perm_eq candidate_key h hnodup
    unfold resolve_lean_dependencies_v1
    refine ensure_bind_congr (by rw [h.length_eq]) fun _ _ => ?_
    rw [hsorted, h.length_eq]
  · -- the same identity twice under one key is refused in either order
    have hnodup' : ¬(candidates'.map candidate_key).Nodup := fun h' => hnodup (hkeys.nodup_iff.mpr h')
    have hfirst := duplicate_identity_of_key hnodup
    have hsecond := duplicate_identity_of_key hnodup'
    unfold resolve_lean_dependencies_v1
    refine ensure_bind_congr (by rw [h.length_eq]) fun _ _ => ?_
    exact ensure_bind_congr (iff_of_false hfirst hsecond) fun hadj _ => absurd hadj hfirst

/-- The candidates of the sample, in the other order. -/
theorem resolve_candidate_order_sample :
    resolve_lean_dependencies_v1 sample_request [sample_candidate_a, sample_candidate_b] =
      resolve_lean_dependencies_v1 sample_request [sample_candidate_b, sample_candidate_a] :=
  resolve_candidate_order _ _ _ (List.Perm.swap _ _ _)

end LeanBun.Resolver
