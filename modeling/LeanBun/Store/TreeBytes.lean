/-
What the digests of a tree are taken of.

The digest of a source tree and that of a store object are taken of two encodings of the
same entries, which differ in the width of the mode and in their first bytes. Both can be
read in one way only.
-/
import LeanBun.Lib.BigEndian
import LeanBun.Store.Object

set_option autoImplicit false

namespace LeanBun.Store

open LeanBun.Lib LeanBun.Core

/-- Entries as they are in memory: every number fits into its type. -/
structure NormalizedEntries where
  entries : List NormalizedTreeEntryV1
  count : entries.length < 2 ^ 64
  short : ∀ entry ∈ entries, ShortText entry.path
  mode : ∀ entry ∈ entries, entry.mode < 2 ^ 32
  size : ∀ entry ∈ entries, entry.size < 2 ^ 64

theorem NormalizedEntries.small (tree : NormalizedEntries) :
    ∀ entry ∈ tree.entries, SmallEntry entry := by
  intro entry hentry
  have hmode := tree.mode entry hentry
  exact ⟨tree.short entry hentry, by omega, tree.size entry hentry⟩

theorem be32_eq (n : ℕ) : be32 n = be_bytes 4 n := by
  simp only [be32, be_bytes, List.map_cons, List.map_nil, Nat.shiftRight_eq_div_pow]
  rfl

/-- Numbers below `2^32` are delimited. -/
theorem be32_delimited : Delimited (fun n => n < 2 ^ 32) be32 := by
  refine @Delimited.of_length _ _ _ _ 4 (fun _ _ => rfl) ?_
  intro a b ha hb h
  rw [be32_eq, be32_eq] at h
  rw [← be_value_be_bytes (show a < 256 ^ 4 from ha), h, be_value_be_bytes (show b < 256 ^ 4 from hb)]

/-- The entries that the metadata of an object can hold. -/
def PublicEntry (entry : NormalizedTreeEntryV1) : Prop :=
  ShortText entry.path ∧ entry.mode < 2 ^ 32 ∧ entry.size < 2 ^ 64

theorem metadata_entry_delimited : Delimited PublicEntry metadata_entry_bytes := by
  rintro ⟨path, kind, mode, size, sha256⟩ ⟨path', kind', mode', size', sha256'⟩ r s
    ⟨hpath, hmode, hsize⟩ ⟨hpath', hmode', hsize'⟩ h
  simp only [metadata_entry_bytes, List.append_assoc, List.cons_append] at h
  obtain ⟨hpaths, h⟩ := string_bytes_delimited _ _ _ _ hpath hpath' h
  obtain ⟨htag, h⟩ := List.cons.inj h
  obtain ⟨hmodes, h⟩ := be32_delimited _ _ _ _ hmode hmode' h
  obtain ⟨hsizes, h⟩ := be64_delimited _ _ _ _ hsize hsize' h
  obtain ⟨hdigests, hrest⟩ := optional_sha_delimited _ _ _ _ trivial trivial h
  have hkind : kind = kind' := by
    cases kind <;> cases kind' <;> first | rfl | cases htag
  dsimp only at hpaths hmodes hsizes
  exact ⟨by rw [hpaths, hkind, hmodes, hsizes, hdigests], hrest⟩

/-- **The metadata of an object** determines its entries. -/
theorem encode_public_metadata_injective {tree tree' : NormalizedEntries}
    (h : encode_public_metadata tree.entries = encode_public_metadata tree'.entries) :
    tree.entries = tree'.entries := by
  have hpublic (tree : NormalizedEntries) : ∀ entry ∈ tree.entries, PublicEntry entry :=
    fun entry hentry => ⟨tree.short entry hentry, tree.mode entry hentry, tree.size entry hentry⟩
  unfold encode_public_metadata at h
  obtain ⟨hlength, h⟩ := be64_delimited _ _ _ _ tree.count tree'.count (List.append_cancel_left h)
  have hnil : tree.entries.flatMap metadata_entry_bytes ++ [] =
      tree'.entries.flatMap metadata_entry_bytes ++ [] := by
    rw [List.append_nil, List.append_nil, h]
  exact (metadata_entry_delimited.flatMap hlength (hpublic tree) (hpublic tree') hnil).1

/-- **The bytes of a source tree** determine its entries. -/
theorem NormalizedEntries.tree_bytes_injective {tree tree' : NormalizedEntries}
    (h : tree_bytes tree.entries = tree_bytes tree'.entries) : tree.entries = tree'.entries :=
  LeanBun.Store.tree_bytes_injective tree.count tree'.count tree.small tree'.small h

end LeanBun.Store
