/-
Source directories, as the store reads them.

A directory is listed by the paths below it, each with its components and what
lies there; a recursion over directories visits exactly these paths. Git metadata
and Lake caches are passed over at every depth. What remains is planned: a list
of normalized entries in the order of their paths, which is the tree that the
digest is made of.

Names are UTF-8 here: any other name is refused. Nobody changes a directory while
it is read. Which of several defects is reported depends on the order of the list.
-/
import LeanBun.Store.Object
import LeanBun.Lib.Sorted

set_option autoImplicit false

namespace LeanBun.Store

open LeanBun.Lib LeanBun.Core

/-! ## Directories -/

/-- What lies under a path: a file comes with its permission bits. -/
inductive Node where
  | Directory
  | File (mode : ℕ) (bytes : List UInt8)
  | Symlink
  | Special
deriving DecidableEq

/-- Everything below a directory. -/
abbrev Tree := List (List Str × Node)

/-- A name that a directory can hold. -/
def file_name (name : Str) : Bool :=
  decide (name ≠ []) && decide (name ≠ ['.']) && decide (name ≠ ['.', '.']) && !name.contains '/'

/-- The listing of a directory: names are names of files, no path is listed twice,
and a path lies below directories. -/
structure Tree.Listing (tree : Tree) : Prop where
  names : ∀ entry ∈ tree, entry.1 ≠ [] ∧ ∀ name ∈ entry.1, file_name name = true
  paths : (tree.map Prod.fst).Nodup
  parents : ∀ entry ∈ tree, entry.1.dropLast ≠ [] → (entry.1.dropLast, .Directory) ∈ tree

/-- `symlink_metadata`. -/
def Tree.get (tree : Tree) (path : List Str) : Option Node :=
  (tree.find? fun entry => decide (entry.1 = path)).map Prod.snd

/-- The path is the root of the listing or a directory in it. -/
def Tree.is_dir (tree : Tree) (path : List Str) : Prop := path = [] ∨ tree.get path = some .Directory

instance (tree : Tree) (path : List Str) : Decidable (tree.is_dir path) :=
  inferInstanceAs (Decidable (_ ∨ _))

/-- Everything below a path, listed from there. -/
def Tree.below (tree : Tree) (path : List Str) : Tree :=
  tree.filterMap fun entry => (entry.1.dropPrefix? path).bind fun relative =>
    if relative = [] then none else some (relative, entry.2)

/-- The directory under a path. -/
def Tree.directory (tree : Tree) (path : List Str) : Option Tree :=
  if tree.is_dir path then some (tree.below path) else none

/-- `parts.join("/")`. -/
def portable_relative_path (relative : List Str) : Str := List.intercalate ['/'] relative

/-- The parts of a path that are passed over: `".git" | ".lake"`. -/
def reserved_name (part : Str) : Bool :=
  decide (part = ".git".toList) || decide (part = ".lake".toList)

def limit (message : String) : LeanStoreError := ⟨.LimitExceeded, message⟩
def store_boundary (message : String) : LeanStoreError := ⟨.BoundaryViolation, message⟩

/-- `validate_relative_entry_path`. -/
def validate_relative_entry_path (path : Str) : StoreResult Unit :=
  if path = [] ∨ 4096 < byte_len path ∨
      (path.any fun c => decide (c.toNat < 0x20) || decide (c.toNat = 0x7f)) = true then
    .error ⟨.PathTraversal, "archive entry path is empty, oversized or contains controls"⟩
  else if path.head? = some '/' ∨ path.head? = some '\\' ∨ (as_bytes path)[1]? = some 0x3A then
    .error ⟨.AbsoluteArchivePath, "absolute archive path is forbidden: " ++ String.ofList path⟩
  else if '\\' ∈ path ∨ ((split '/' path).any fun part => decide (part = []) ||
      decide (part = ['.']) || decide (part = ['.', '.']) || reserved_name part) = true then
    .error ⟨.PathTraversal, "nonnormal archive path is forbidden: " ++ String.ofList path⟩
  else .ok ()

/-! ## Planning -/

/-- The order of the keys of a `BTreeMap<String, _>`: by bytes. -/
def path_key (path : Str) : List ℕ := (as_bytes path).map UInt8.toNat

/-- `insert_directory`: the map as the list of its values. -/
def insert_directory (entries : List NormalizedTreeEntryV1) (path : Str) :
    StoreResult (List NormalizedTreeEntryV1) :=
  match entries.find? fun entry => decide (entry.path = path) with
  | some entry =>
    if entry.kind = .Directory then .ok entries
    else .error ⟨.DuplicateArchiveEntry,
      "file/directory archive collision: " ++ String.ofList path⟩
  | none => .ok (entries ++ [⟨path, .Directory, 0o755, 0, none⟩])

/-- `BTreeMap::insert`. -/
def insert_file (entries : List NormalizedTreeEntryV1) (entry : NormalizedTreeEntryV1) :
    List NormalizedTreeEntryV1 :=
  entries.filter (fun other => decide (other.path ≠ entry.path)) ++ [entry]

/-- The entry of a regular file. -/
def file_entry (path : Str) (mode : ℕ) (bytes : List UInt8) : NormalizedTreeEntryV1 :=
  ⟨path, .File, if mode &&& 0o111 ≠ 0 then 0o755 else 0o644, bytes.length, some (digest bytes)⟩

/-- `expanded` and `entries` of `collect_directory`. -/
structure Collected where
  expanded : ℕ
  entries : List NormalizedTreeEntryV1

/-- One round of `collect_directory`. -/
def collect_entry (limits : LeanStoreLimitsV1) (excluded_files : List Str) (state : Collected)
    (entry : List Str × Node) : StoreResult Collected :=
  let relative := portable_relative_path entry.1
  if (split '/' relative).any reserved_name = true then .ok state
  else do
    validate_relative_entry_path relative
    if relative ∈ excluded_files then
      match entry.2 with
      | .File _ _ => return state
      | _ => throw (store_boundary "excluded derived cache is not a regular file")
    else
      let state ← (match entry.2 with
        | .Symlink => .error ⟨.UnsafeSymlink,
            "local source symlink is forbidden: " ++ String.ofList relative⟩
        | .Directory => do
          let entries ← insert_directory state.entries relative
          return ⟨state.expanded, entries⟩
        | .File mode bytes =>
          if limits.maximum_file_bytes < bytes.length then
            .error ⟨.ExpansionLimit, "local source file exceeds limit: " ++ String.ofList relative⟩
          else if 2 ^ 64 ≤ state.expanded + bytes.length then
            .error (limit "local source size overflow")
          else if limits.maximum_expanded_bytes < state.expanded + bytes.length then
            .error (limit "local source expanded bytes exceed limit")
          else .ok ⟨state.expanded + bytes.length,
            insert_file state.entries (file_entry relative mode bytes)⟩
        | .Special => .error ⟨.SpecialFile,
            "local source special file is forbidden: " ++ String.ofList relative⟩ :
        StoreResult Collected)
      if limits.maximum_entries < state.entries.length then
        throw (limit "local source entry count exceeds limit")
      else return state

/-- `plan_directory_excluding`, of what lies under its root: the entries of the plan. -/
def plan_directory_excluding (root : Option Tree) (limits : LeanStoreLimitsV1)
    (excluded_files : List Str) : StoreResult (List NormalizedTreeEntryV1) :=
  match root with
  | none => .error (store_boundary "local source is not a directory")
  | some tree => do
    let collected ← tree.foldlM (collect_entry limits excluded_files) ⟨0, []⟩
    let _ ← ensure (collected.entries.length ≤ limits.maximum_entries)
      (limit "normalized directory entry count exceeds limit")
    return sort_by_key (fun entry => path_key entry.path) collected.entries

/-- `plan_directory`. -/
def plan_directory (root : Option Tree) (limits : LeanStoreLimitsV1) :
    StoreResult (List NormalizedTreeEntryV1) := plan_directory_excluding root limits []

/-- `normalized_directory_tree_sha256_v1`. -/
def normalized_directory_tree_sha256_v1 (root : Option Tree) (limits : LeanStoreLimitsV1) :
    StoreResult Sha256 := do
  let limits ← limits.validate
  let entries ← plan_directory root limits
  return tree_digest entries

/-- `normalized_directory_tree_sha256_excluding_exact_files_v1`. -/
def normalized_directory_tree_sha256_excluding_exact_files_v1 (root : Option Tree)
    (limits : LeanStoreLimitsV1) (excluded_files : List Str) : StoreResult Sha256 := do
  for path in excluded_files do
    validate_relative_entry_path path
    let _ ← ensure ((split '/' path).any reserved_name = false)
      (store_boundary "derived-cache exclusion overlaps reserved state")
  let _ ← ensure excluded_files.Nodup
    (store_boundary "derived-cache exclusions contain a duplicate")
  let limits ← limits.validate
  let entries ← plan_directory_excluding root limits excluded_files
  return tree_digest entries

/-! ## What a plan is -/

/-- A path that is not in the map yet. -/
theorem insert_file_fresh {entries : List NormalizedTreeEntryV1} {entry : NormalizedTreeEntryV1}
    (h : ∀ other ∈ entries, other.path ≠ entry.path) :
    insert_file entries entry = entries ++ [entry] := by
  unfold insert_file
  rw [List.filter_eq_self.mpr fun other hother => decide_eq_true (h other hother)]

/-- The entry that a directory or a file becomes. -/
def source_entry (relative : Str) : Node → Option NormalizedTreeEntryV1
  | .Directory => some ⟨relative, .Directory, 0o755, 0, none⟩
  | .File mode bytes => some (file_entry relative mode bytes)
  | .Symlink => none
  | .Special => none

theorem source_entry_path {relative : Str} {node : Node} {planned : NormalizedTreeEntryV1}
    (h : source_entry relative node = some planned) : planned.path = relative := by
  cases node with
  | Directory => rw [← Option.some.inj h]
  | File mode bytes =>
    rw [← Option.some.inj h]
    rfl
  | Symlink => cases h
  | Special => cases h

/-- The path is passed over at any depth. -/
def reserved (entry : List Str × Node) : Prop :=
  (split '/' (portable_relative_path entry.1)).any reserved_name = true

instance (entry : List Str × Node) : Decidable (reserved entry) :=
  inferInstanceAs (Decidable (_ = true))

/-- The entry that a listed path adds to the plan. -/
def planned_entry (excluded_files : List Str) (entry : List Str × Node) :
    Option NormalizedTreeEntryV1 :=
  if reserved entry ∨ portable_relative_path entry.1 ∈ excluded_files then none
  else source_entry (portable_relative_path entry.1) entry.2

theorem planned_entry_eq_some {excluded_files : List Str} {entry : List Str × Node}
    {planned : NormalizedTreeEntryV1} : planned_entry excluded_files entry = some planned ↔
      ¬reserved entry ∧ portable_relative_path entry.1 ∉ excluded_files ∧
        source_entry (portable_relative_path entry.1) entry.2 = some planned := by
  unfold planned_entry
  by_cases h : reserved entry ∨ portable_relative_path entry.1 ∈ excluded_files
  · rw [if_pos h]
    refine ⟨fun hnone => (by cases hnone), fun hall => ?_⟩
    rcases h with h | h
    · exact absurd h hall.1
    · exact absurd h hall.2.1
  · rw [if_neg h]
    rw [not_or] at h
    exact ⟨fun heq => ⟨h.1, h.2, heq⟩, fun hall => hall.2.2⟩

/-- A listed path does not stop the reading, the totals aside. -/
def Readable (limits : LeanStoreLimitsV1) (excluded_files : List Str) (entry : List Str × Node) :
    Prop :=
  reserved entry ∨ validate_relative_entry_path (portable_relative_path entry.1) = .ok () ∧
    if portable_relative_path entry.1 ∈ excluded_files then ∃ mode bytes, entry.2 = .File mode bytes
    else ∃ planned, source_entry (portable_relative_path entry.1) entry.2 = some planned ∧
      planned.size ≤ limits.maximum_file_bytes

/-- What a round does to the state. -/
def Collected.add (state : Collected) : Option NormalizedTreeEntryV1 → Collected
  | none => state
  | some planned => ⟨state.expanded + planned.size, state.entries ++ [planned]⟩

/-- The totals are within the limits. -/
def Collected.fits (limits : LeanStoreLimitsV1) (state : Collected) : Prop :=
  state.expanded ≤ limits.maximum_expanded_bytes ∧ state.entries.length ≤ limits.maximum_entries

section Plan

variable {limits : LeanStoreLimitsV1} {excluded_files : List Str}

/-- A valid path is passed over nowhere. -/
theorem valid_not_reserved {path : Str} (h : validate_relative_entry_path path = .ok ()) :
    (split '/' path).any reserved_name = false := by
  unfold validate_relative_entry_path at h
  by_contra hreserved
  rw [Bool.not_eq_false] at hreserved
  obtain ⟨part, hpart, hname⟩ := List.any_eq_true.mp hreserved
  have hany : ((split '/' path).any fun part => decide (part = []) || decide (part = ['.']) ||
      decide (part = ['.', '.']) || reserved_name part) = true :=
    List.any_eq_true.mpr ⟨part, hpart, by rw [hname, Bool.or_true]⟩
  split at h
  · cases h
  · split at h
    · cases h
    · rw [if_pos (Or.inr hany)] at h
      cases h

/-- **One round** of the reading, at a path that is not in the map yet. -/
theorem collect_entry_eq_ok {state state' : Collected} {entry : List Str × Node}
    (hfresh : ∀ planned ∈ state.entries, planned.path ≠ portable_relative_path entry.1)
    (hmaximum : limits.maximum_expanded_bytes < 2 ^ 64) (hfits : state.fits limits) :
    collect_entry limits excluded_files state entry = .ok state' ↔
      Readable limits excluded_files entry ∧
        state' = state.add (planned_entry excluded_files entry) ∧ state'.fits limits := by
  obtain ⟨relative, node⟩ := entry
  unfold collect_entry Readable
  dsimp only at hfresh ⊢
  by_cases hreserved : (split '/' (portable_relative_path relative)).any reserved_name = true
  · have hnone : planned_entry excluded_files (relative, node) = none := if_pos (Or.inl hreserved)
    rw [if_pos hreserved, hnone]
    constructor
    · intro h
      rw [← Except.ok.inj h]
      exact ⟨Or.inl hreserved, rfl, hfits⟩
    · rintro ⟨-, rfl, -⟩
      rfl
  rw [if_neg hreserved]
  have hnot_reserved : ¬reserved (relative, node) := hreserved
  rw [or_iff_right hnot_reserved, bind_eq_ok]
  by_cases hvalid : validate_relative_entry_path (portable_relative_path relative) = .ok ()
  swap
  · exact ⟨fun ⟨_, h, _⟩ => absurd h hvalid, fun h => absurd h.1.1 hvalid⟩
  rw [and_iff_right hvalid]
  have hunit : ∀ p : StoreResult Collected, (∃ b, validate_relative_entry_path
      (portable_relative_path relative) = .ok b ∧ p = .ok state') ↔ p = .ok state' :=
    fun p => ⟨fun ⟨_, _, h⟩ => h, fun h => ⟨(), hvalid, h⟩⟩
  rw [hunit]
  by_cases hexcluded : portable_relative_path relative ∈ excluded_files
  · have hnone : planned_entry excluded_files (relative, node) = none := if_pos (Or.inr hexcluded)
    rw [if_pos hexcluded, if_pos hexcluded, hnone]
    cases node with
    | File mode bytes =>
      constructor
      · intro h
        rw [← Except.ok.inj h]
        exact ⟨⟨mode, bytes, rfl⟩, rfl, hfits⟩
      · rintro ⟨-, rfl, -⟩
        rfl
    | Directory => exact ⟨fun h => (by cases h), fun ⟨⟨_, _, h⟩, _⟩ => by cases h⟩
    | Symlink => exact ⟨fun h => (by cases h), fun ⟨⟨_, _, h⟩, _⟩ => by cases h⟩
    | Special => exact ⟨fun h => (by cases h), fun ⟨⟨_, _, h⟩, _⟩ => by cases h⟩
  have hplanned : planned_entry excluded_files (relative, node) =
      source_entry (portable_relative_path relative) node := if_neg (not_or.mpr ⟨hreserved, hexcluded⟩)
  rw [if_neg hexcluded, if_neg hexcluded, hplanned, bind_eq_ok]
  -- the count is checked after the entry is in the map
  have hcount : ∀ added : Collected, added.expanded ≤ limits.maximum_expanded_bytes →
      ((if limits.maximum_entries < added.entries.length then
        throw (limit "local source entry count exceeds limit")
      else pure added : StoreResult Collected) = .ok state' ↔ state' = added ∧ state'.fits limits) := by
    intro added hexpanded
    by_cases hlarge : limits.maximum_entries < added.entries.length
    · rw [if_pos hlarge]
      refine ⟨fun h => (by cases h), ?_⟩
      rintro ⟨rfl, -, hsmall⟩
      omega
    · rw [if_neg hlarge]
      constructor
      · intro h
        rw [← Except.ok.inj h]
        exact ⟨rfl, hexpanded, Nat.le_of_not_lt hlarge⟩
      · rintro ⟨rfl, -⟩
        rfl
  cases node with
  | Directory =>
    have hnew : state.entries.find?
        (fun entry => decide (entry.path = portable_relative_path relative)) = none :=
      find_key_none.mpr hfresh
    have hinsert : insert_directory state.entries (portable_relative_path relative) =
        .ok (state.entries ++ [⟨portable_relative_path relative, .Directory, 0o755, 0, none⟩]) := by
      unfold insert_directory
      rw [hnew]
    have hdone := hcount ⟨state.expanded,
      state.entries ++ [⟨portable_relative_path relative, .Directory, 0o755, 0, none⟩]⟩ hfits.1
    constructor
    · rintro ⟨added, hadded, h⟩
      rw [hinsert] at hadded
      rw [← Except.ok.inj hadded] at h
      exact ⟨⟨_, rfl, Nat.zero_le _⟩, hdone.mp h⟩
    · rintro ⟨-, hadd⟩
      refine ⟨_, ?_, hdone.mpr hadd⟩
      rw [hinsert]
      rfl
  | File mode bytes =>
    have hinsert : insert_file state.entries (file_entry (portable_relative_path relative) mode bytes) =
        state.entries ++ [file_entry (portable_relative_path relative) mode bytes] :=
      insert_file_fresh hfresh
    dsimp only
    rw [hinsert]
    by_cases hsize : limits.maximum_file_bytes < bytes.length
    · rw [if_pos hsize]
      refine ⟨fun ⟨_, h, _⟩ => (by cases h), ?_⟩
      rintro ⟨⟨planned, hentry, hsmall⟩, -⟩
      rw [← Option.some.inj hentry] at hsmall
      exact absurd hsmall (Nat.not_le_of_lt hsize)
    rw [if_neg hsize]
    have hreadable : ∃ planned, source_entry (portable_relative_path relative) (.File mode bytes) =
        some planned ∧ planned.size ≤ limits.maximum_file_bytes :=
      ⟨_, rfl, Nat.le_of_not_lt hsize⟩
    rw [and_iff_right hreadable]
    by_cases hlarge : limits.maximum_expanded_bytes < state.expanded + bytes.length
    · have hfails : ¬(state' = state.add
          (source_entry (portable_relative_path relative) (.File mode bytes)) ∧
          state'.fits limits) := by
        rintro ⟨rfl, hsmall, -⟩
        exact absurd hsmall (Nat.not_le_of_lt hlarge)
      refine ⟨fun ⟨added, h, _⟩ => ?_, fun h => absurd h hfails⟩
      by_cases hoverflow : 2 ^ 64 ≤ state.expanded + bytes.length
      · rw [if_pos hoverflow] at h
        cases h
      · rw [if_neg hoverflow, if_pos hlarge] at h
        cases h
    · rw [if_neg (by omega), if_neg hlarge]
      have hexpanded := Nat.le_of_not_lt hlarge
      constructor
      · rintro ⟨added, hadded, h⟩
        rw [← Except.ok.inj hadded] at h
        exact (hcount _ hexpanded).mp h
      · intro hadd
        exact ⟨_, rfl, (hcount _ hexpanded).mpr hadd⟩
  | Symlink => exact ⟨fun ⟨_, h, _⟩ => (by cases h), fun ⟨⟨_, h, _⟩, _⟩ => by cases h⟩
  | Special => exact ⟨fun ⟨_, h, _⟩ => (by cases h), fun ⟨⟨_, h, _⟩, _⟩ => by cases h⟩

/-- What the rounds add to the state, all together. -/
def Collected.add_all (state : Collected) (planned : List NormalizedTreeEntryV1) : Collected :=
  ⟨state.expanded + (planned.map NormalizedTreeEntryV1.size).sum, state.entries ++ planned⟩

theorem Collected.add_all_cons (state : Collected) (planned : Option NormalizedTreeEntryV1)
    (rest : List NormalizedTreeEntryV1) :
    (state.add planned).add_all rest = state.add_all (planned.toList ++ rest) := by
  cases planned with
  | none => rfl
  | some planned =>
    unfold Collected.add Collected.add_all
    simp only [Option.toList_some, List.singleton_append, List.map_cons, List.sum_cons,
      List.append_assoc, Nat.add_assoc]

/-- The totals only grow. -/
theorem Collected.fits_of_add_all {state : Collected} {planned : List NormalizedTreeEntryV1}
    (h : (state.add_all planned).fits limits) : state.fits limits := by
  obtain ⟨hexpanded, hcount⟩ := h
  unfold Collected.add_all at hexpanded hcount
  dsimp only at hexpanded hcount
  rw [List.length_append] at hcount
  exact ⟨by omega, by omega⟩

/-- **The reading of a list of paths**, none of them in the map or listed twice. -/
theorem collect_entries_eq_ok {tree : Tree} {state state' : Collected}
    (hdistinct : (state.entries.map NormalizedTreeEntryV1.path ++
      tree.map fun entry => portable_relative_path entry.1).Nodup)
    (hmaximum : limits.maximum_expanded_bytes < 2 ^ 64) (hfits : state.fits limits) :
    tree.foldlM (collect_entry limits excluded_files) state = .ok state' ↔
      (∀ entry ∈ tree, Readable limits excluded_files entry) ∧
        state' = state.add_all (tree.filterMap (planned_entry excluded_files)) ∧
        state'.fits limits := by
  induction tree generalizing state with
  | nil =>
    have hsame : state.add_all [] = state := by
      unfold Collected.add_all
      rw [List.append_nil]
      rfl
    show Except.ok state = Except.ok state' ↔ _
    rw [List.filterMap_nil, hsame]
    constructor
    · intro h
      rw [← Except.ok.inj h]
      exact ⟨fun _ h => absurd h List.not_mem_nil, rfl, hfits⟩
    · rintro ⟨-, rfl, -⟩
      rfl
  | cons entry rest ih =>
    rw [List.map_cons, List.nodup_append] at hdistinct
    obtain ⟨hstate, hrest, hcross⟩ := hdistinct
    rw [List.nodup_cons] at hrest
    have hfresh : ∀ planned ∈ state.entries, planned.path ≠ portable_relative_path entry.1 :=
      fun planned hplanned => hcross _ (List.mem_map_of_mem hplanned) _ List.mem_cons_self
    have hnext : ((state.add (planned_entry excluded_files entry)).entries.map
        NormalizedTreeEntryV1.path ++
        rest.map fun entry => portable_relative_path entry.1).Nodup := by
      have hold : (state.entries.map NormalizedTreeEntryV1.path ++
          rest.map fun entry => portable_relative_path entry.1).Nodup :=
        List.nodup_append.mpr ⟨hstate, hrest.2, fun a ha b hb => hcross a ha b (List.mem_cons_of_mem _ hb)⟩
      cases hplanned : planned_entry excluded_files entry with
      | none => exact hold
      | some planned =>
        have hpath : planned.path = portable_relative_path entry.1 :=
          source_entry_path (planned_entry_eq_some.mp hplanned).2.2
        show ((state.entries ++ [planned]).map NormalizedTreeEntryV1.path ++ _).Nodup
        rw [List.map_append, List.map_singleton, hpath, List.append_assoc, List.singleton_append,
          List.nodup_append]
        exact ⟨hstate, List.nodup_cons.mpr hrest, hcross⟩
    have hall : (planned_entry excluded_files entry).toList ++
        rest.filterMap (planned_entry excluded_files) =
        (entry :: rest).filterMap (planned_entry excluded_files) := by
      rw [List.filterMap_cons]
      cases planned_entry excluded_files entry <;> rfl
    rw [List.foldlM_cons, bind_eq_ok, List.forall_mem_cons, ← hall, ← Collected.add_all_cons]
    constructor
    · rintro ⟨added, hadded, h⟩
      obtain ⟨hreadable, rfl, hsmall⟩ := (collect_entry_eq_ok hfresh hmaximum hfits).mp hadded
      obtain ⟨hothers, heq, hend⟩ := (ih hnext hsmall).mp h
      exact ⟨⟨hreadable, hothers⟩, heq, hend⟩
    · rintro ⟨⟨hreadable, hothers⟩, rfl, hend⟩
      have hsmall := Collected.fits_of_add_all hend
      exact ⟨_, (collect_entry_eq_ok hfresh hmaximum hfits).mpr ⟨hreadable, rfl, hsmall⟩,
        (ih hnext hsmall).mpr ⟨hothers, rfl, hend⟩⟩

theorem split_portable {relative : List Str} (hne : relative ≠ [])
    (hnames : ∀ name ∈ relative, file_name name = true) :
    split '/' (portable_relative_path relative) = relative := by
  refine List.splitOn_intercalate '/' (fun name hname => ?_) hne
  have h := hnames name hname
  unfold file_name at h
  simp only [Bool.and_eq_true, Bool.not_eq_true', List.contains_eq_mem, decide_eq_false_iff_not] at h
  exact h.2

theorem portable_injective {a b : List Str} (ha : a ≠ []) (hb : b ≠ [])
    (hnames : ∀ name ∈ a, file_name name = true) (hnames' : ∀ name ∈ b, file_name name = true)
    (h : portable_relative_path a = portable_relative_path b) : a = b := by
  rw [← split_portable ha hnames, h, split_portable hb hnames']

theorem path_key_injective : Function.Injective path_key := by
  intro a b h
  have hbytes : as_bytes a = as_bytes b := List.map_injective_iff.mpr (fun _ _ => UInt8.toNat.inj) h
  exact as_bytes_injective hbytes

section Listing

variable {tree : Tree} (hlisting : tree.Listing)

include hlisting

/-- Different listed paths have different texts. -/
theorem Tree.Listing.portable_nodup :
    (tree.map fun entry => portable_relative_path entry.1).Nodup := by
  have hinj : ∀ a ∈ tree.map Prod.fst, ∀ b ∈ tree.map Prod.fst,
      portable_relative_path a = portable_relative_path b → a = b := by
    intro a ha b hb h
    obtain ⟨entry, hentry, rfl⟩ := List.mem_map.mp ha
    obtain ⟨other, hother, rfl⟩ := List.mem_map.mp hb
    obtain ⟨hne, hnames⟩ := hlisting.names entry hentry
    obtain ⟨hne', hnames'⟩ := hlisting.names other hother
    exact portable_injective hne hne' hnames hnames' h
  have h := List.Nodup.map_on hinj hlisting.paths
  rw [List.map_map] at h
  exact h

/-- The planned entries have different paths. -/
theorem Tree.Listing.planned_nodup :
    ((tree.filterMap (planned_entry excluded_files)).map NormalizedTreeEntryV1.path).Nodup := by
  refine List.Nodup.sublist ?_ hlisting.portable_nodup
  clear hlisting
  induction tree with
  | nil => exact List.Sublist.slnil
  | cons entry rest ih =>
    rw [List.map_cons, List.filterMap_cons]
    cases hplanned : planned_entry excluded_files entry with
    | none => exact ih.cons _
    | some planned =>
      rw [← source_entry_path (planned_entry_eq_some.mp hplanned).2.2]
      exact ih.cons_cons _

/-- **Planning a directory.** A plan has an entry for every directory and file that is
neither passed over nor excluded, in the order of the paths; everything listed is
readable, and the totals are within the limits. -/
theorem plan_directory_eq_ok (hmaximum : limits.maximum_expanded_bytes < 2 ^ 64)
    {entries : List NormalizedTreeEntryV1} :
    plan_directory_excluding (some tree) limits excluded_files = .ok entries ↔
      (∀ entry ∈ tree, Readable limits excluded_files entry) ∧
        entries = sort_by_key (fun entry => path_key entry.path)
          (tree.filterMap (planned_entry excluded_files)) ∧
        (entries.map NormalizedTreeEntryV1.size).sum ≤ limits.maximum_expanded_bytes ∧
        entries.length ≤ limits.maximum_entries := by
  have hdistinct : ((⟨0, []⟩ : Collected).entries.map NormalizedTreeEntryV1.path ++
      tree.map fun entry => portable_relative_path entry.1).Nodup := hlisting.portable_nodup
  have hstart : (⟨0, []⟩ : Collected).fits limits := ⟨Nat.zero_le _, Nat.zero_le _⟩
  have hcollect : ∀ state', tree.foldlM (collect_entry limits excluded_files) ⟨0, []⟩ = .ok state' ↔ _ :=
    fun state' => collect_entries_eq_ok hdistinct hmaximum hstart
  have hperm := sort_by_key_perm (fun entry : NormalizedTreeEntryV1 => path_key entry.path)
    (tree.filterMap (planned_entry excluded_files))
  have hsum := (hperm.map NormalizedTreeEntryV1.size).sum_nat
  have hlength := hperm.length_eq
  show (tree.foldlM _ _ >>= fun collected => _) = _ ↔ _
  rw [bind_eq_ok]
  constructor
  · rintro ⟨collected, hcollected, h⟩
    obtain ⟨hreadable, rfl, hexpanded, hcount⟩ := (hcollect collected).mp hcollected
    obtain ⟨⟨_⟩, -, h⟩ := bind_eq_ok.mp h
    have h : _ = entries := Except.ok.inj h
    unfold Collected.add_all at h hexpanded hcount
    rw [Nat.zero_add] at hexpanded
    rw [List.nil_append] at h hcount
    refine ⟨hreadable, h.symm, ?_, ?_⟩
    · rw [← h, hsum]
      exact hexpanded
    · rw [← h, hlength]
      exact hcount
  · rintro ⟨hreadable, rfl, hexpanded, hcount⟩
    rw [hsum] at hexpanded
    rw [hlength] at hcount
    have hfits : ((⟨0, []⟩ : Collected).add_all
        (tree.filterMap (planned_entry excluded_files))).fits limits := by
      refine ⟨?_, hcount⟩
      show 0 + _ ≤ _
      rw [Nat.zero_add]
      exact hexpanded
    refine ⟨_, (hcollect _).mpr ⟨hreadable, rfl, hfits⟩, ?_⟩
    rw [ensure_ok hfits.2]
    rfl

end Listing

section Planned

variable {tree : Tree} {entries : List NormalizedTreeEntryV1} (hlisting : tree.Listing)
  (hmaximum : limits.maximum_expanded_bytes < 2 ^ 64)
  (hplan : plan_directory_excluding (some tree) limits excluded_files = .ok entries)

include hlisting hmaximum hplan

theorem plan_sorted : StrictlySorted (fun entry => path_key entry.path) entries := by
  obtain ⟨-, rfl, -⟩ := (plan_directory_eq_ok hlisting hmaximum).mp hplan
  have hkeys : ((tree.filterMap (planned_entry excluded_files)).map
      fun entry => path_key entry.path).Nodup := by
    have hpaths : ((tree.filterMap (planned_entry excluded_files)).map
        NormalizedTreeEntryV1.path).Nodup := hlisting.planned_nodup
    have hmap := List.Nodup.map path_key_injective hpaths
    rw [List.map_map] at hmap
    exact hmap
  refine strictly_sorted_of_adjacent _ (sort_by_key_sorted _ _) ?_
  exact (adjacent_equal_sort_iff _).mpr hkeys

theorem mem_plan {planned : NormalizedTreeEntryV1} :
    planned ∈ entries ↔ ∃ entry ∈ tree, planned_entry excluded_files entry = some planned := by
  obtain ⟨-, rfl, -⟩ := (plan_directory_eq_ok hlisting hmaximum).mp hplan
  rw [mem_sort_by_key, List.mem_filterMap]

/-- The paths of a plan are valid, and within the limits its files. -/
theorem plan_entry_valid {planned : NormalizedTreeEntryV1} (h : planned ∈ entries) :
    validate_relative_entry_path planned.path = .ok () ∧ planned.size ≤ limits.maximum_file_bytes := by
  obtain ⟨entry, hentry, hplanned⟩ := (mem_plan hlisting hmaximum hplan).mp h
  obtain ⟨hreserved, hexcluded, hsource⟩ := planned_entry_eq_some.mp hplanned
  have hreadable := ((plan_directory_eq_ok hlisting hmaximum).mp hplan).1 entry hentry
  rcases hreadable with hno | ⟨hvalid, hsome⟩
  · exact absurd hno hreserved
  · rw [if_neg hexcluded, hsource] at hsome
    obtain ⟨other, hother, hsize⟩ := hsome
    rw [source_entry_path hsource, Option.some.inj hother]
    exact ⟨hvalid, hsize⟩

/-- A planned entry is the one of a directory or of a file. -/
theorem plan_entry_shape {planned : NormalizedTreeEntryV1} (h : planned ∈ entries) :
    planned = ⟨planned.path, .Directory, 0o755, 0, none⟩ ∨
      ∃ mode bytes, planned = file_entry planned.path mode bytes := by
  obtain ⟨entry, -, hplanned⟩ := (mem_plan hlisting hmaximum hplan).mp h
  obtain ⟨-, -, hsource⟩ := planned_entry_eq_some.mp hplanned
  rw [source_entry_path hsource]
  cases hnode : entry.2 with
  | Directory =>
    rw [hnode] at hsource
    exact Or.inl (Option.some.inj hsource).symm
  | File mode bytes =>
    rw [hnode] at hsource
    exact Or.inr ⟨mode, bytes, (Option.some.inj hsource).symm⟩
  | Symlink =>
    rw [hnode] at hsource
    cases hsource
  | Special =>
    rw [hnode] at hsource
    cases hsource

/-- The numbers of a plan fit into the encoding of its digest. -/
theorem plan_entry_small (hfile : limits.maximum_file_bytes < 2 ^ 64)
    {planned : NormalizedTreeEntryV1} (h : planned ∈ entries) : SmallEntry planned := by
  obtain ⟨hvalid, hsize⟩ := plan_entry_valid hlisting hmaximum hplan h
  refine ⟨?_, ?_, by omega⟩
  · have hlength : byte_len planned.path ≤ 4096 := by
      by_contra hlong
      unfold validate_relative_entry_path at hvalid
      rw [if_pos (Or.inr (Or.inl (Nat.lt_of_not_le hlong)))] at hvalid
      cases hvalid
    unfold ShortText
    omega
  · rcases plan_entry_shape hlisting hmaximum hplan h with hsame | ⟨mode, bytes, hsame⟩
    · rw [hsame]
      show 0o755 < 2 ^ 64
      decide
    · rw [hsame]
      show (if mode &&& 0o111 ≠ 0 then 0o755 else 0o644 : ℕ) < 2 ^ 64
      split <;> decide

end Planned

end Plan

/-! ## Parts of a listing -/

/-- What is listed below a path. -/
theorem mem_below {tree : Tree} {place relative : List Str} {node : Node} :
    (relative, node) ∈ tree.below place ↔ relative ≠ [] ∧ (place ++ relative, node) ∈ tree := by
  unfold Tree.below
  rw [List.mem_filterMap]
  constructor
  · rintro ⟨⟨path, other⟩, hentry, h⟩
    dsimp only at h
    obtain ⟨rest, hrest, h⟩ := Option.bind_eq_some_iff.mp h
    obtain ⟨front, hpath, hfront⟩ := List.dropPrefix?_eq_some_iff.mp hrest
    by_cases hnil : rest = []
    · rw [if_pos hnil] at h
      cases h
    · rw [if_neg hnil] at h
      obtain ⟨rfl, rfl⟩ := Prod.mk.inj (Option.some.inj h)
      rw [hpath, eq_of_beq hfront] at hentry
      exact ⟨hnil, hentry⟩
  · rintro ⟨hne, hentry⟩
    refine ⟨(place ++ relative, node), hentry, ?_⟩
    have hrest : (place ++ relative).dropPrefix? place = some relative :=
      List.dropPrefix?_eq_some_iff.mpr ⟨place, rfl, BEq.rfl⟩
    dsimp only
    rw [hrest]
    exact if_neg hne

/-- A part of a listing is a listing. -/
theorem Tree.Listing.below {tree : Tree} (h : tree.Listing) (place : List Str) :
    (tree.below place).Listing := by
  refine ⟨?_, ?_, ?_⟩
  · rintro ⟨relative, node⟩ hentry
    obtain ⟨hne, hentry⟩ := mem_below.mp hentry
    refine ⟨hne, fun name hname => ?_⟩
    exact (h.names _ hentry).2 name (List.mem_append_right _ hname)
  · have hpaths := h.paths
    clear h
    induction tree with
    | nil => exact List.nodup_nil
    | cons entry rest ih =>
      rw [List.map_cons, List.nodup_cons] at hpaths
      obtain ⟨hnew, hrest⟩ := hpaths
      have hcons : Tree.below (entry :: rest) place = (Tree.below [entry] place) ++
          Tree.below rest place := List.filterMap_append (l := [entry])
      rw [hcons, List.map_append]
      refine List.nodup_append.mpr ⟨?_, ih hrest, ?_⟩
      · have hlen : (Tree.below [entry] place).length ≤ 1 := List.length_filterMap_le _ _
        refine List.nodup_iff_count_le_one.mpr fun path => ?_
        refine le_trans List.count_le_length ?_
        rw [List.length_map]
        exact hlen
      · intro path hpath other hother heq
        obtain ⟨⟨relative, node⟩, hmem, rfl⟩ := List.mem_map.mp hpath
        obtain ⟨⟨relative', node'⟩, hmem', rfl⟩ := List.mem_map.mp hother
        dsimp only at heq
        rw [← heq] at hmem'
        have hhead := List.mem_singleton.mp (mem_below.mp hmem).2
        refine hnew (List.mem_map.mpr ⟨_, (mem_below.mp hmem').2, ?_⟩)
        rw [← hhead]
  · rintro ⟨relative, node⟩ hentry hparent
    obtain ⟨hne, hentry⟩ := mem_below.mp hentry
    refine mem_below.mpr ⟨hparent, ?_⟩
    have hdrop : (place ++ relative).dropLast = place ++ relative.dropLast :=
      List.dropLast_append_of_ne_nil hne
    have hup := h.parents _ hentry
    rw [hdrop] at hup
    exact hup fun hnil => hparent (List.append_eq_nil_iff.mp hnil).2

theorem get_eq_some {tree : Tree} (h : tree.Listing) {path : List Str} {node : Node} :
    tree.get path = some node ↔ (path, node) ∈ tree := by
  unfold Tree.get
  rw [Option.map_eq_some_iff]
  constructor
  · rintro ⟨⟨found, other⟩, hfound, rfl⟩
    obtain ⟨hmem, rfl⟩ := find_key_some hfound
    exact hmem
  · intro hmem
    exact ⟨(path, node), find_key_of_mem h.paths hmem, rfl⟩

end LeanBun.Store
