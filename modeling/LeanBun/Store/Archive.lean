/-
Tar archives, as the store reads them.

An archive is a stream of blocks: a header, the blocks of its file, and two blocks of zeros at
the end. What it holds is planned as the entries of a normalized tree, each file with its
bytes. Links are passed over or refused, depending on the limits.
-/
import LeanBun.Store.Directory

set_option autoImplicit false

namespace LeanBun.Store

open LeanBun.Lib LeanBun.Core

def TAR_BLOCK : ℕ := 512

def malformed (message : String) : LeanStoreError := ⟨.ArchiveMalformed, message⟩

/-! ## Headers -/

/-- The digits of `parse_octal`. -/
def octal_value (label : String) : ℕ → List UInt8 → StoreResult ℕ
  | value, [] => .ok value
  | value, byte :: bytes =>
    if byte < 0x30 ∨ 0x37 < byte then .error (malformed (label ++ " is not canonical octal"))
    else if 2 ^ 64 ≤ value * 8 + (byte.toNat - 0x30) then .error (limit (label ++ " overflow"))
    else octal_value label (value * 8 + (byte.toNat - 0x30)) bytes

/-- What ends or stands in front of an octal number. -/
def octal_blank (byte : UInt8) : Bool := decide (byte = 0 ∨ byte = 0x20)

/-- `parse_octal`. -/
def parse_octal (bytes : List UInt8) (label : String) : StoreResult ℕ :=
  octal_value label 0 ((bytes.dropWhile octal_blank).takeWhile fun byte => !octal_blank byte)

/-- The bytes of a header from one offset to another. -/
def header_slice (header : List UInt8) (start stop : ℕ) : List UInt8 :=
  (header.drop start).take (stop - start)

/-- `verify_checksum`. -/
def verify_checksum (header : List UInt8) : StoreResult Unit := do
  let expected ← parse_octal (header_slice header 148 156) "tar checksum"
  let actual := ((header.take 148).map UInt8.toNat).sum + 8 * 0x20 +
    ((header.drop 156).map UInt8.toNat).sum
  let _ ← ensure (expected = actual) (malformed "tar header checksum mismatch")
  return ()

/-- `field_string`. -/
def field_string (bytes : List UInt8) (label : String) : StoreResult Str :=
  match from_utf8 (bytes.takeWhile fun byte => byte ≠ 0) with
  | some value => .ok value
  | none => .error (malformed (label ++ " is not UTF-8"))

/-- `str::trim_end_matches` at a character. -/
def trim_end_matches (c : Char) (text : Str) : Str :=
  (text.reverse.dropWhile fun other => other = c).reverse

/-- The two parts of a name, joined. -/
def joined_name (front name : Str) : Str :=
  if front = [] then name else if name = [] then front else front ++ '/' :: name

/-- `tar_path`. -/
def tar_path (header : List UInt8) : StoreResult Str := do
  let name ← field_string (header.take 100) "tar name"
  let front ← field_string (header_slice header 345 500) "tar prefix"
  return trim_end_matches '/' (joined_name front name)

/-- `str::split_once` at a text. -/
def split_once_text (sep : Str) : Str → Option (Str × Str)
  | [] => if sep = [] then some ([], []) else none
  | c :: text =>
    if sep.isPrefixOf (c :: text) = true then some ([], (c :: text).drop sep.length)
    else (split_once_text sep text).map fun parts => (c :: parts.1, parts.2)

/-- The number of bytes of whole blocks. -/
def padded (size : ℕ) : ℕ := (size + TAR_BLOCK - 1) / TAR_BLOCK * TAR_BLOCK

/-- `consume_git_global_pax`: what follows the header. -/
def consume_git_global_pax (rest : List UInt8) (size : ℕ) (name : Str) :
    StoreResult (List UInt8) := do
  let _ ← ensure (name = "pax_global_header".toList ∧ size ≤ 4096)
    (malformed "noncanonical global PAX header is forbidden")
  let _ ← ensure (size ≤ rest.length) (malformed "global PAX header is truncated")
  match from_utf8 (rest.take size) with
  | none => .error (malformed "global PAX header is not UTF-8")
  | some record =>
    match split_once_text " comment=".toList (trim_end_matches '\n' record) with
    | none => .error (malformed "global PAX header is not a Git commit comment")
    | some (_, value) =>
      let _ ← ensure (byte_len value = 40 ∧ value.all is_lower_hex = true)
        (malformed "global PAX Git commit is not canonical SHA-1")
      match (split_once ' ' record).bind fun parts => usize_from_str parts.1 with
      | none => .error (malformed "global PAX length is invalid")
      | some declared =>
        let _ ← ensure (declared = size ∧ record.getLast? = some '\n')
          (malformed "global PAX length differs from its body")
        let _ ← ensure (padded size ≤ rest.length)
          (malformed "global PAX padding is truncated")
        return rest.drop (padded size)

/-! ## Entries -/

/-- `PlannedTreeEntry`. -/
structure PlannedTreeEntry where
  metadata : NormalizedTreeEntryV1
  bytes : Option (List UInt8)
deriving DecidableEq

/-- `BTreeMap::get`. -/
def planned (entries : List PlannedTreeEntry) (path : Str) : Option PlannedTreeEntry :=
  entries.find? fun entry => decide (entry.metadata.path = path)

def collision (path : Str) : LeanStoreError :=
  ⟨.DuplicateArchiveEntry, "file/directory archive collision: " ++ String.ofList path⟩

/-- `insert_directory`. -/
def plan_directory_entry (entries : List PlannedTreeEntry) (path : Str) :
    StoreResult (List PlannedTreeEntry) :=
  match planned entries path with
  | some entry => if entry.metadata.kind = .Directory then .ok entries else .error (collision path)
  | none => .ok (entries ++ [⟨⟨path, .Directory, 0o755, 0, none⟩, none⟩])

/-- `insert_entry`. -/
def insert_entry (entries : List PlannedTreeEntry) (entry : PlannedTreeEntry) :
    StoreResult (List PlannedTreeEntry) :=
  match planned entries entry.metadata.path with
  | some _ => .error (collision entry.metadata.path)
  | none => .ok (entries ++ [entry])

/-- `add_parent_directories`. -/
def add_parent_directories (path : Str) (entries : List PlannedTreeEntry) :
    StoreResult (List PlannedTreeEntry) :=
  let parts := split '/' path
  ((List.range parts.length).tail.map fun stop => portable_relative_path (parts.take stop)).foldlM
    plan_directory_entry entries

/-- A regular file of an archive. -/
def archived_file (name : Str) (mode : ℕ) (data : List UInt8) : PlannedTreeEntry :=
  ⟨⟨name, .File, if mode &&& 0o111 = 0 then 0o644 else 0o755, data.length, some (digest data)⟩,
    some data⟩

/-! ## The stream -/

/-- What `parse_tar` keeps from block to block. -/
structure Scan where
  rest : List UInt8
  zero_blocks : ℕ
  explicit : List Str
  entries : List PlannedTreeEntry
  expanded : ℕ

/-- A regular file: its data and its padding. -/
def parse_file (limits : LeanStoreLimitsV1) (scan : Scan) (name : Str) (size mode : ℕ) :
    StoreResult Scan := do
  let _ ← ensure (size ≤ limits.maximum_file_bytes)
    ⟨.ExpansionLimit, "archive file exceeds limit: " ++ String.ofList name⟩
  let _ ← ensure (scan.expanded + size < 2 ^ 64) (limit "expanded size overflow")
  let _ ← ensure (scan.expanded + size ≤ limits.maximum_expanded_bytes)
    ⟨.ExpansionLimit, "archive expanded bytes exceed limit"⟩
  let _ ← ensure (size ≤ scan.rest.length) (malformed "archive file body is truncated")
  let data := scan.rest.take size
  let _ ← ensure (padded size ≤ scan.rest.length)
    (malformed "archive file padding is truncated")
  let entries ← insert_entry scan.entries (archived_file name mode data)
  return { scan with
    rest := scan.rest.drop (padded size)
    entries := entries
    expanded := scan.expanded + size }

/-- What a header describes, by its type flag. -/
def parse_flagged (limits : LeanStoreLimitsV1) (scan : Scan) (type_flag : UInt8) (name : Str)
    (size mode : ℕ) : StoreResult Scan :=
  if type_flag = 0 ∨ type_flag = 0x30 then parse_file limits scan name size mode
  else if type_flag = 0x35 then do
    let _ ← ensure (size = 0) (malformed "directory tar entry has nonzero size")
    let entries ← plan_directory_entry scan.entries name
    return { scan with entries := entries }
  else if type_flag = 0x32 ∨ type_flag = 0x31 then
    if MAX_TREE_ENTRIES_V1 < limits.maximum_entries ∧ size = 0 then .ok scan
    else .error ⟨.UnsafeSymlink, "archive links are forbidden: " ++ String.ofList name⟩
  else .error ⟨.SpecialFile, "archive special entry is forbidden: " ++ String.ofList name⟩

/-- An entry that is not a block of zeros. -/
def parse_entry (limits : LeanStoreLimitsV1) (scan : Scan) (header : List UInt8) :
    StoreResult Scan := do
  verify_checksum header
  let name ← tar_path header
  validate_relative_entry_path name
  let size ← parse_octal (header_slice header 124 136) "tar size"
  let type_flag := header[156]?.getD 0
  if type_flag = 0x67 then
    let rest ← consume_git_global_pax scan.rest size name
    return { scan with rest := rest }
  else
    let _ ← ensure (name ∉ scan.explicit)
      ⟨.DuplicateArchiveEntry, "duplicate archive entry: " ++ String.ofList name⟩
    let _ ← ensure (scan.explicit.length + 1 ≤ limits.maximum_entries)
      (limit "archive entry count exceeds limit")
    let mode ← parse_octal (header_slice header 100 108) "tar mode"
    let entries ← add_parent_directories name scan.entries
    parse_flagged limits { scan with explicit := name :: scan.explicit, entries := entries }
      type_flag name size mode

/-- The loop over the blocks, each of which takes at least one block off the front. -/
def parse_blocks (limits : LeanStoreLimitsV1) : ℕ → Scan → StoreResult Scan
  | 0, scan => .ok scan
  | fuel + 1, scan =>
    if scan.rest.length < TAR_BLOCK then .ok scan
    else
      let header := scan.rest.take TAR_BLOCK
      let after := { scan with rest := scan.rest.drop TAR_BLOCK }
      if header.all (fun byte => byte = 0) = true then
        if scan.zero_blocks + 1 = 2 then
          if after.rest.all (fun byte => byte = 0) = true then .ok { after with zero_blocks := 2 }
          else .error (malformed "nonzero data follows tar terminator")
        else parse_blocks limits fuel { after with zero_blocks := scan.zero_blocks + 1 }
      else if scan.zero_blocks ≠ 0 then
        .error (malformed "single zero tar block before another entry")
      else do
        let next ← parse_entry limits after header
        parse_blocks limits fuel next

/-- `TreePlan` without its digest, which is a function of it. -/
structure TreePlan where
  entries : List PlannedTreeEntry
deriving DecidableEq

/-- `TreePlan::digest`. -/
def TreePlan.digest (plan : TreePlan) : Sha256 :=
  tree_digest (plan.entries.map PlannedTreeEntry.metadata)

/-- `parse_tar`. -/
def parse_tar (bytes : List UInt8) (limits : LeanStoreLimitsV1) : StoreResult TreePlan := do
  let _ ← ensure (bytes.length ≤ limits.maximum_download_bytes)
    (limit "archive exceeds download byte limit")
  let _ ← ensure (TAR_BLOCK * 2 ≤ bytes.length ∧ bytes.length % TAR_BLOCK = 0)
    (malformed "archive is not a complete tar block stream")
  let scan ← parse_blocks limits (bytes.length / TAR_BLOCK) ⟨bytes, 0, [], [], 0⟩
  let _ ← ensure (scan.zero_blocks = 2) (malformed "archive lacks two-block terminator")
  let _ ← ensure (scan.entries.length ≤ limits.maximum_entries)
    (limit "normalized tree entry count exceeds limit")
  return ⟨sort_by_key (fun entry => path_key entry.metadata.path) scan.entries⟩

/-- `normalized_tar_tree_sha256_v1`. -/
def normalized_tar_tree_sha256_v1 (bytes : List UInt8) (limits : LeanStoreLimitsV1) :
    StoreResult Sha256 := do
  let limits ← limits.validate
  let plan ← parse_tar bytes limits
  return plan.digest

/-! ## The loop ends -/

theorem consume_rest {rest after : List UInt8} {size : ℕ} {name : Str}
    (h : consume_git_global_pax rest size name = .ok after) : after.length ≤ rest.length := by
  obtain ⟨_, -, h⟩ := bind_eq_ok.mp h
  obtain ⟨_, -, h⟩ := bind_eq_ok.mp h
  split at h
  · cases h
  · split at h
    · cases h
    · obtain ⟨_, -, h⟩ := bind_eq_ok.mp h
      split at h
      · cases h
      · obtain ⟨_, -, h⟩ := bind_eq_ok.mp h
        obtain ⟨_, -, h⟩ := bind_eq_ok.mp h
        cases h
        rw [List.length_drop]
        omega

/-- What one header may do to the scan: it takes bytes off the front and plans entries. -/
inductive Plans : Scan → Scan → Prop where
  | pass (scan : Scan) {rest : List UInt8} (hrest : rest.length ≤ scan.rest.length) :
      Plans scan { scan with rest := rest }
  | link (scan : Scan) (name : Str) {parents : List PlannedTreeEntry}
      (hparents : add_parent_directories name scan.entries = .ok parents) :
      Plans scan { scan with explicit := name :: scan.explicit, entries := parents }
  | directory (scan : Scan) (name : Str) {parents entries : List PlannedTreeEntry}
      (hparents : add_parent_directories name scan.entries = .ok parents)
      (hentries : plan_directory_entry parents name = .ok entries) :
      Plans scan { scan with explicit := name :: scan.explicit, entries := entries }
  | file (scan : Scan) (name : Str) (mode : ℕ) (data : List UInt8) (taken : ℕ)
      {parents entries : List PlannedTreeEntry}
      (hparents : add_parent_directories name scan.entries = .ok parents)
      (hentries : insert_entry parents (archived_file name mode data) = .ok entries) :
      Plans scan { scan with
        rest := scan.rest.drop taken
        explicit := name :: scan.explicit
        entries := entries
        expanded := scan.expanded + data.length }

theorem parse_entry_plans {limits : LeanStoreLimitsV1} {scan next : Scan} {header : List UInt8}
    (h : parse_entry limits scan header = .ok next) : Plans scan next := by
  obtain ⟨_, -, h⟩ := bind_eq_ok.mp h
  obtain ⟨name, -, h⟩ := bind_eq_ok.mp h
  obtain ⟨_, -, h⟩ := bind_eq_ok.mp h
  obtain ⟨size, -, h⟩ := bind_eq_ok.mp h
  dsimp only at h
  split at h
  · obtain ⟨rest, hrest, h⟩ := bind_eq_ok.mp h
    cases h
    exact .pass scan (consume_rest hrest)
  · obtain ⟨_, -, h⟩ := bind_eq_ok.mp h
    obtain ⟨_, -, h⟩ := bind_eq_ok.mp h
    obtain ⟨mode, -, h⟩ := bind_eq_ok.mp h
    obtain ⟨parents, hparents, h⟩ := bind_eq_ok.mp h
    unfold parse_flagged at h
    split at h
    · obtain ⟨_, -, h⟩ := bind_eq_ok.mp h
      obtain ⟨_, -, h⟩ := bind_eq_ok.mp h
      obtain ⟨_, -, h⟩ := bind_eq_ok.mp h
      obtain ⟨hbody, -, h⟩ := bind_eq_ok.mp h
      obtain ⟨_, -, h⟩ := bind_eq_ok.mp h
      obtain ⟨entries, hentries, h⟩ := bind_eq_ok.mp h
      cases h
      have hlength : (scan.rest.take size).length = size := List.length_take_of_le hbody.down
      have hfile := Plans.file scan name mode (scan.rest.take size) (padded size) hparents hentries
      rw [hlength] at hfile
      exact hfile
    · split at h
      · obtain ⟨_, -, h⟩ := bind_eq_ok.mp h
        obtain ⟨entries, hentries, h⟩ := bind_eq_ok.mp h
        cases h
        exact .directory scan name hparents hentries
      · split at h
        · split at h
          · cases h
            exact .link scan name hparents
          · cases h
        · cases h

theorem Plans.rest {scan next : Scan} (h : Plans scan next) :
    next.rest.length ≤ scan.rest.length := by
  cases h with
  | pass hrest => exact hrest
  | link _ _ => exact le_rfl
  | directory _ _ _ => exact le_rfl
  | file _ _ _ taken _ _ =>
    dsimp only
    rw [List.length_drop]
    omega

/-- **Enough rounds.** Once there are as many rounds as blocks, more of them change nothing. -/
theorem parse_blocks_succ {limits : LeanStoreLimitsV1} {fuel : ℕ} {scan : Scan}
    (h : scan.rest.length < TAR_BLOCK * (fuel + 1)) :
    parse_blocks limits (fuel + 1) scan = parse_blocks limits fuel scan := by
  induction fuel generalizing scan with
  | zero =>
    unfold parse_blocks
    exact if_pos (by omega)
  | succ fuel ih =>
    unfold parse_blocks
    by_cases hshort : scan.rest.length < TAR_BLOCK
    · rw [if_pos hshort, if_pos hshort]
    · rw [if_neg hshort, if_neg hshort]
      have hdrop : (scan.rest.drop TAR_BLOCK).length < TAR_BLOCK * (fuel + 1) := by
        rw [List.length_drop]
        unfold TAR_BLOCK at *
        omega
      dsimp only
      by_cases hzero : (scan.rest.take TAR_BLOCK).all (fun byte => byte = 0) = true
      · simp only [if_pos hzero]
        rw [ih hdrop]
      · simp only [if_neg hzero]
        by_cases hblocks : scan.zero_blocks ≠ 0
        · rw [if_pos hblocks, if_pos hblocks]
        · rw [if_neg hblocks, if_neg hblocks]
          rcases hentry : parse_entry limits { scan with rest := scan.rest.drop TAR_BLOCK }
            (scan.rest.take TAR_BLOCK) with error | next
          · rfl
          · exact ih (lt_of_le_of_lt (parse_entry_plans hentry).rest hdrop)

/-! ## What a plan of an archive is -/

/-- An entry as it is planned: a file with its size and the digest of its bytes. -/
def EntryPlanned (entry : PlannedTreeEntry) : Prop :=
  match entry.metadata.kind with
  | .Directory => entry.bytes = none ∧ entry.metadata.sha256 = none ∧ entry.metadata.size = 0
  | .File => ∃ data, entry.bytes = some data ∧ entry.metadata.sha256 = some (digest data) ∧
      entry.metadata.size = data.length

/-- **The entries of a plan**: no path twice, and each entry as it is planned. -/
structure EntriesPlanned (entries : List PlannedTreeEntry) : Prop where
  paths : (entries.map fun entry => entry.metadata.path).Nodup
  each : ∀ entry ∈ entries, EntryPlanned entry

theorem planned_eq_none {entries : List PlannedTreeEntry} {path : Str} :
    planned entries path = none ↔ path ∉ entries.map fun entry => entry.metadata.path := by
  unfold planned
  rw [List.find?_eq_none]
  constructor
  · intro h hmem
    obtain ⟨entry, hentry, hpath⟩ := List.mem_map.mp hmem
    exact h entry hentry (decide_eq_true hpath)
  · intro h entry hentry hpath
    exact h (List.mem_map.mpr ⟨entry, hentry, of_decide_eq_true hpath⟩)

/-- A new path may be planned. -/
theorem EntriesPlanned.snoc {entries : List PlannedTreeEntry} (h : EntriesPlanned entries)
    {entry : PlannedTreeEntry} (hnew : planned entries entry.metadata.path = none)
    (hentry : EntryPlanned entry) : EntriesPlanned (entries ++ [entry]) := by
  constructor
  · rw [List.map_append, List.nodup_append]
    refine ⟨h.paths, List.nodup_singleton _, ?_⟩
    rintro path hpath _ hother rfl
    rw [List.map_singleton, List.mem_singleton] at hother
    exact planned_eq_none.mp hnew (hother ▸ hpath)
  · intro other hother
    rcases List.mem_append.mp hother with hother | hother
    · exact h.each other hother
    · rw [List.mem_singleton.mp hother]
      exact hentry

theorem plan_directory_entry_planned {entries after : List PlannedTreeEntry} {path : Str}
    (h : EntriesPlanned entries) (hok : plan_directory_entry entries path = .ok after) :
    EntriesPlanned after := by
  unfold plan_directory_entry at hok
  split at hok
  · split at hok
    · cases hok
      exact h
    · cases hok
  · rename_i hnew
    cases hok
    exact h.snoc hnew ⟨rfl, rfl, rfl⟩

theorem insert_entry_planned {entries after : List PlannedTreeEntry} {entry : PlannedTreeEntry}
    (h : EntriesPlanned entries) (hentry : EntryPlanned entry)
    (hok : insert_entry entries entry = .ok after) : EntriesPlanned after := by
  unfold insert_entry at hok
  split at hok
  · cases hok
  · rename_i hnew
    cases hok
    exact h.snoc hnew hentry

theorem add_parent_directories_planned {entries after : List PlannedTreeEntry} {path : Str}
    (h : EntriesPlanned entries) (hok : add_parent_directories path entries = .ok after) :
    EntriesPlanned after := by
  unfold add_parent_directories at hok
  dsimp only at hok
  generalize (List.range (split '/' path).length).tail.map
    (fun stop => portable_relative_path ((split '/' path).take stop)) = parents at hok
  induction parents generalizing entries with
  | nil =>
    cases hok
    exact h
  | cons parent parents ih =>
    rw [List.foldlM_cons] at hok
    obtain ⟨next, hnext, hok⟩ := bind_eq_ok.mp hok
    exact ih (plan_directory_entry_planned h hnext) hok

/-- One header keeps the entries planned. -/
theorem Plans.planned {scan next : Scan} (h : Plans scan next) (hscan : EntriesPlanned scan.entries) :
    EntriesPlanned next.entries := by
  cases h with
  | pass _ => exact hscan
  | link _ hparents => exact add_parent_directories_planned hscan hparents
  | directory _ hparents hentries =>
    exact plan_directory_entry_planned (add_parent_directories_planned hscan hparents) hentries
  | file name mode data _ hparents hentries =>
    have hfile : EntryPlanned (archived_file name mode data) := ⟨data, rfl, rfl, rfl⟩
    exact insert_entry_planned (add_parent_directories_planned hscan hparents) hfile hentries

/-- And so does the loop. -/
theorem parse_blocks_planned {limits : LeanStoreLimitsV1} {fuel : ℕ} {scan last : Scan}
    (hscan : EntriesPlanned scan.entries) (h : parse_blocks limits fuel scan = .ok last) :
    EntriesPlanned last.entries := by
  induction fuel generalizing scan with
  | zero =>
    cases h
    exact hscan
  | succ fuel ih =>
    unfold parse_blocks at h
    split at h
    · cases h
      exact hscan
    · dsimp only at h
      split at h
      · split at h
        · split at h
          · cases h
            exact hscan
          · cases h
        · refine ih ?_ h
          exact hscan
      · split at h
        · cases h
        · obtain ⟨next, hnext, h⟩ := bind_eq_ok.mp h
          exact ih ((parse_entry_plans hnext).planned hscan) h

/-- **A plan of an archive** has every path once and every file with the digest of its bytes. -/
theorem parse_tar_planned {bytes : List UInt8} {limits : LeanStoreLimitsV1} {plan : TreePlan}
    (h : parse_tar bytes limits = .ok plan) : EntriesPlanned plan.entries := by
  obtain ⟨_, -, h⟩ := bind_eq_ok.mp h
  obtain ⟨_, -, h⟩ := bind_eq_ok.mp h
  obtain ⟨scan, hscan, h⟩ := bind_eq_ok.mp h
  obtain ⟨_, -, h⟩ := bind_eq_ok.mp h
  obtain ⟨_, -, h⟩ := bind_eq_ok.mp h
  cases h
  have hempty : EntriesPlanned [] := ⟨List.nodup_nil, fun _ h => absurd h List.not_mem_nil⟩
  have hplanned := @parse_blocks_planned _ _ ⟨bytes, 0, [], [], 0⟩ _ hempty hscan
  have hperm := sort_by_key_perm (fun entry : PlannedTreeEntry => path_key entry.metadata.path)
    scan.entries
  exact ⟨(hperm.map _).nodup_iff.mpr hplanned.paths,
    fun entry hentry => hplanned.each entry (hperm.mem_iff.mp hentry)⟩

end LeanBun.Store
