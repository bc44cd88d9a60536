/-
The identity of an image, as the evidence reader computes it.
-/
import LeanBun.Plan.JsonText

set_option autoImplicit false

namespace LeanBun.Evidence

open LeanBun.Lib LeanBun.Core LeanBun.Plan
open LeanBun.Bridge (json_string json_char)

/-- `ImageIdentityV1`. -/
structure ImageIdentityV1 where
  lean_toolchain : Str
  lean_compiler_githash : Str
  mathlib_revision : Str
  canonical_manifest_hash : Sha256
  package_source_tree_hash : Sha256
  build_relevant_config_hash : Sha256
  target_platform : Str
deriving DecidableEq

/-- A text between quotes, as it is. -/
def quoted (value : Str) : Str := '"' :: (value ++ ['"'])

/-- The canonical text in `image_id`. -/
def image_id_text (identity : ImageIdentityV1) : Str :=
  object_text [("schemaVersion", decimal 1), ("leanToolchain", json_string identity.lean_toolchain),
    ("leanCompilerGithash", json_string identity.lean_compiler_githash),
    ("mathlibRevision", json_string identity.mathlib_revision),
    ("canonicalManifestHash", quoted identity.canonical_manifest_hash.to_string),
    ("packageSourceTreeHash", quoted identity.package_source_tree_hash.to_string),
    ("buildRelevantConfigHash", quoted identity.build_relevant_config_hash.to_string),
    ("targetPlatform", json_string identity.target_platform)]

/-- `image_id`. -/
def image_id (identity : ImageIdentityV1) : Sha256 := digest (as_bytes (image_id_text identity))

theorem lower_hex_plain {c : Char} (hc : is_lower_hex c = true) : c ∉ escaped_chars := by
  have hall : ∀ c ∈ escaped_chars, is_lower_hex c = false := by decide +kernel
  intro h
  rw [hall c h] at hc
  cases hc

/-- A digest needs no escapes. -/
theorem quoted_hash (hash : Sha256) : quoted hash.to_string = json_string hash.to_string := by
  have hchars : ∀ c ∈ hash.to_string, json_char c = [c] := fun c hc =>
    json_char_plain (lower_hex_plain (List.all_eq_true.mp (hex_all_lower hash.bytes) c hc))
  have hflat : hash.to_string.flatMap json_char = hash.to_string := by
    generalize hash.to_string = s at hchars
    induction s with
    | nil => rfl
    | cons c s ih =>
      rw [List.flatMap_cons, hchars c List.mem_cons_self,
        ih fun d hd => hchars d (List.mem_cons_of_mem _ hd)]
      rfl
  unfold quoted json_string
  rw [hflat]

theorem hash_apart (a b : Sha256) : Apart Ends (quoted a.to_string) (quoted b.to_string) := by
  rw [quoted_hash, quoted_hash]
  exact string_apart _ _

theorem quoted_hash_injective {a b : Sha256} (h : quoted a.to_string = quoted b.to_string) :
    a = b := by
  rw [quoted_hash, quoted_hash] at h
  exact Sha256.to_string_injective (json_string_injective h)

/-- **The text of an image identity determines it.** -/
theorem image_id_text_injective : Function.Injective image_id_text := by
  intro a b h
  have hfields := object_text_injective h (.cons (decimal_apart _ _) (.cons (string_apart _ _)
    (.cons (string_apart _ _) (.cons (string_apart _ _) (.cons (hash_apart _ _)
      (.cons (hash_apart _ _) (.cons (hash_apart _ _) (.cons (string_apart _ _) .nil))))))))
  simp only [List.cons.injEq, Prod.mk.injEq, true_and, and_true] at hfields
  obtain ⟨htoolchain, hgithash, hmathlib, hmanifest, htree, hconfig, hplatform⟩ := hfields
  cases a
  cases b
  simp only [ImageIdentityV1.mk.injEq]
  exact ⟨json_string_injective htoolchain, json_string_injective hgithash,
    json_string_injective hmathlib, quoted_hash_injective hmanifest, quoted_hash_injective htree,
    quoted_hash_injective hconfig, json_string_injective hplatform⟩

end LeanBun.Evidence
