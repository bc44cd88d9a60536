/-
The texts of the projections are read back.

A projection is written by pushing characters: its members in a fixed order, each string
through the escapes of the bridge. The strict reader of the codec gives the document back:
the packages of the lock in their order, each with the metadata of its own key and with its
own source or, at run time, with the path that was decided for it.
-/
import LeanBun.Bridge.Projection
import LeanBun.Codec.Writing

set_option autoImplicit false

namespace LeanBun.Bridge

open LeanBun.Lib LeanBun.Core LeanBun.Lock LeanBun.Codec

/-! ## Strings -/

/-- The control characters with an escape of one letter. -/
theorem json_char_piece (c : Char) : Piece Nothing (json_char c) c := by
  unfold json_char
  by_cases hquote : c = '"'
  · rw [if_pos hquote, hquote]
    exact piece_short (by decide)
  rw [if_neg hquote]
  by_cases hslash : c = '\\'
  · rw [if_pos hslash, hslash]
    exact piece_short (by decide)
  rw [if_neg hslash]
  by_cases hb : c = '\x08'
  · rw [if_pos hb, hb]
    exact piece_short (by decide)
  rw [if_neg hb]
  by_cases hf : c = '\x0c'
  · rw [if_pos hf, hf]
    exact piece_short (by decide)
  rw [if_neg hf]
  by_cases hn : c = '\n'
  · rw [if_pos hn, hn]
    exact piece_short (by decide)
  rw [if_neg hn]
  by_cases hr : c = '\r'
  · rw [if_pos hr, hr]
    exact piece_short (by decide)
  rw [if_neg hr]
  by_cases ht : c = '\t'
  · rw [if_pos ht, ht]
    exact piece_short (by decide)
  rw [if_neg ht]
  by_cases hcontrol : c.toNat < 0x20
  · rw [if_pos hcontrol]
    have hpiece := @piece_scalar Nothing _ _ (quad_of_byte (n := c.toNat) (by omega))
      (by unfold HighSurrogate; omega) (by unfold LowSurrogate; omega)
    rw [Char.ofNat_toNat] at hpiece
    exact hpiece
  · rw [if_neg hcontrol]
    exact piece_plain ⟨by omega, hquote, hslash⟩

theorem json_string_text (value : Str) : StringText Nothing (json_string value) value :=
  string_text_of_pieces json_char_piece value

theorem derives_json_string (value : Str) :
    Derives Nothing (.value (.String value)) (json_string value) := .string (json_string_text value)

/-- What an optional text stands for. -/
def optional_json : Option Str → StrictJson
  | some value => .String value
  | none => .Null

theorem derives_optional (value : Option Str) :
    Derives Nothing (.value (optional_json value)) (optional_json_string value) := by
  cases value with
  | none => exact .null
  | some value => exact derives_json_string value

/-- A member whose name is written by `json_string`. -/
theorem field_text (name : String) {v : StrictJson} {s : Str} (h : Derives Nothing (.value v) s) :
    MemberText Nothing (name.toList, v) (json_string name.toList ++ ':' :: s) :=
  h.member_text (json_string_text name.toList)

theorem field_string_text (name : String) (value : Str) :
    MemberText Nothing (name.toList, .String value) (field_string name value) :=
  field_text name (derives_json_string value)

/-! ## Entries -/

/-- The members that say where a package comes from. -/
def source_members : ProjectionSource → List (Str × StrictJson)
  | .Git url rev input_rev subdir => [("type".toList, .String "git".toList), ("url".toList, .String url),
      ("rev".toList, .String rev), ("inputRev".toList, optional_json input_rev),
      ("subDir".toList, optional_json subdir)]
  | .Path dir => [("type".toList, .String "path".toList), ("dir".toList, .String dir)]

/-- The members of an entry, in the order in which they are written. -/
def entry_members (entry : ProjectionEntry) : List (Str × StrictJson) :=
  [("name".toList, .String entry.name), ("scope".toList, .String entry.scope),
    ("inherited".toList, .Bool entry.inherited), ("configFile".toList, .String entry.config_file),
    ("manifestFile".toList, optional_json entry.manifest_file)] ++ source_members entry.source

/-- The document of an entry. -/
def entry_json (entry : ProjectionEntry) : StrictJson := .Object (btree_map (entry_members entry))

theorem derives_bool (value : Bool) :
    Derives Nothing (.value (.Bool value)) (if value then "true".toList else "false".toList) := by
  cases value with
  | true => exact .true_text
  | false => exact .false_text

/-- The texts of the source members, in their order. -/
theorem source_texts (source : ProjectionSource) : ∃ texts,
    List.Forall₂ (MemberText Nothing) (source_members source) texts ∧
      source_text source = texts.flatMap fun text => ',' :: text := by
  cases source with
  | Git url rev input_rev subdir =>
    refine ⟨[field_string "type" "git".toList, field_string "url" url, field_string "rev" rev,
      json_string "inputRev".toList ++ ':' :: optional_json_string input_rev,
      json_string "subDir".toList ++ ':' :: optional_json_string subdir], ?_, ?_⟩
    · exact .cons (field_string_text "type" _) (.cons (field_string_text "url" url)
        (.cons (field_string_text "rev" rev) (.cons (field_text "inputRev" (derives_optional _))
          (.cons (field_text "subDir" (derives_optional _)) .nil))))
    · have htype : ",\"type\":\"git\",".toList = ',' :: field_string "type" "git".toList ++ [','] := by
        decide
      have hinput : ",\"inputRev\":".toList = ',' :: json_string "inputRev".toList ++ [':'] := by
        decide
      have hsubdir : ",\"subDir\":".toList = ',' :: json_string "subDir".toList ++ [':'] := by
        decide
      show ",\"type\":\"git\",".toList ++ field_string "url" url ++ ',' :: field_string "rev" rev ++
        ",\"inputRev\":".toList ++ optional_json_string input_rev ++ ",\"subDir\":".toList ++
        optional_json_string subdir = _
      rw [htype, hinput, hsubdir]
      simp only [List.flatMap_cons, List.flatMap_nil, List.append_assoc, List.cons_append,
        List.nil_append, List.append_nil]
  | Path dir =>
    refine ⟨[field_string "type" "path".toList, field_string "dir" dir], ?_, ?_⟩
    · exact .cons (field_string_text "type" _) (.cons (field_string_text "dir" dir) .nil)
    · have htype : ",\"type\":\"path\",".toList = ',' :: field_string "type" "path".toList ++ [','] := by
        decide
      show ",\"type\":\"path\",".toList ++ field_string "dir" dir = _
      rw [htype]
      simp only [List.flatMap_cons, List.flatMap_nil, List.append_assoc, List.cons_append,
        List.nil_append, List.append_nil]

theorem entry_names_nodup (entry : ProjectionEntry) : ((entry_members entry).map Prod.fst).Nodup := by
  unfold entry_members source_members
  split <;> simp only [List.map_append, List.map_cons, List.map_nil] <;> decide

/-- **An entry** is written as its document. -/
theorem derives_entry (entry : ProjectionEntry) :
    Derives Nothing (.value (entry_json entry)) (entry_text entry) := by
  obtain ⟨texts, htexts, hsource⟩ := source_texts entry.source
  have hinherited : ",\"inherited\":".toList = ',' :: json_string "inherited".toList ++ [':'] := by
    decide
  have hmanifest : ",\"manifestFile\":".toList = ',' :: json_string "manifestFile".toList ++ [':'] := by
    decide
  have hmembers : List.Forall₂ (MemberText Nothing) (entry_members entry)
      (field_string "name" entry.name :: field_string "scope" entry.scope ::
        (json_string "inherited".toList ++ ':' ::
          (if entry.inherited then "true".toList else "false".toList)) ::
        field_string "configFile" entry.config_file ::
        (json_string "manifestFile".toList ++ ':' :: optional_json_string entry.manifest_file) ::
        texts) :=
    .cons (field_string_text "name" _) (.cons (field_string_text "scope" _)
      (.cons (field_text "inherited" (derives_bool _)) (.cons (field_string_text "configFile" _)
        (.cons (field_text "manifestFile" (derives_optional _)) htexts))))
  have hobject := derives_object hmembers (entry_names_nodup entry)
  rw [intercalate_comma] at hobject
  have htext : entry_text entry = '\x7b' :: ((field_string "name" entry.name ++
      List.flatMap (fun text => ',' :: text) (field_string "scope" entry.scope ::
        (json_string "inherited".toList ++ ':' ::
          (if entry.inherited then "true".toList else "false".toList)) ::
        field_string "configFile" entry.config_file ::
        (json_string "manifestFile".toList ++ ':' :: optional_json_string entry.manifest_file) ::
        texts)) ++ ['\x7d']) := by
    unfold entry_text
    rw [hinherited, hmanifest, hsource]
    simp only [List.flatMap_cons, List.append_assoc, List.cons_append, List.nil_append]
  rw [htext]
  exact hobject

/-- The entries of a projection, with commas between them. -/
theorem derives_entries (entries : List ProjectionEntry) :
    Derives Nothing (.value (.Array (entries.map entry_json)))
      ('[' :: (entries_text entries ++ [']'])) := by
  apply derives_array
  rw [List.forall₂_map_left_iff, List.forall₂_map_right_iff]
  exact List.forall₂_same.mpr fun entry _ => (derives_entry entry).element_text

/-! ## Documents -/

/-- The members of the manifest projection. -/
def manifest_members (root_name : Str) (packages : List StrictJson) : List (Str × StrictJson) :=
  [("version".toList, .String "1.2.0".toList), ("fixedToolchain".toList, .Bool true),
    ("name".toList, .String root_name), ("lakeDir".toList, .String ".lake".toList),
    ("packagesDir".toList, .String ".lake/packages".toList), ("packages".toList, .Array packages)]

/-- The members of the runtime projection. -/
def runtime_members (packages : List StrictJson) : List (Str × StrictJson) :=
  [("version".toList, .String "1.2.0".toList), ("packages".toList, .Array packages)]

theorem derives_manifest (manifest : LakeManifestProjectionV1) : ∃ s,
    manifest.as_str = s ++ ['\n'] ∧ Derives Nothing (.value (.Object (btree_map
      (manifest_members manifest.root_name (manifest.entries.map entry_json))))) s := by
  have hmembers : List.Forall₂ (MemberText Nothing)
      (manifest_members manifest.root_name (manifest.entries.map entry_json))
      (field_string "version" "1.2.0".toList ::
        (json_string "fixedToolchain".toList ++ ':' :: "true".toList) ::
        field_string "name" manifest.root_name :: field_string "lakeDir" ".lake".toList ::
        field_string "packagesDir" ".lake/packages".toList ::
        (json_string "packages".toList ++ ':' :: '[' :: (entries_text manifest.entries ++ [']'])) ::
        []) :=
    .cons (field_string_text "version" _) (.cons (field_text "fixedToolchain" (derives_bool true))
      (.cons (field_string_text "name" _) (.cons (field_string_text "lakeDir" _)
        (.cons (field_string_text "packagesDir" _)
          (.cons (field_text "packages" (derives_entries _)) .nil)))))
  have hnames : ((manifest_members manifest.root_name (manifest.entries.map entry_json)).map
      Prod.fst).Nodup := by
    simp only [manifest_members, List.map_cons, List.map_nil]
    decide
  have hobject := derives_object hmembers hnames
  refine ⟨_, ?_, hobject⟩
  have hhead : "\x7b\"version\":\"1.2.0\",\"fixedToolchain\":true,\"name\":".toList =
      '\x7b' :: field_string "version" "1.2.0".toList ++ ',' :: (json_string "fixedToolchain".toList ++
        ':' :: "true".toList) ++ ',' :: json_string "name".toList ++ [':'] := by
    decide
  have hmiddle : ",\"lakeDir\":\".lake\",\"packagesDir\":\".lake/packages\",\"packages\":[".toList =
      ',' :: field_string "lakeDir" ".lake".toList ++ ',' :: field_string "packagesDir"
        ".lake/packages".toList ++ ',' :: json_string "packages".toList ++ [':', '['] := by
    decide
  have htail : "]\x7d\n".toList = [']', '\x7d', '\n'] := by decide
  unfold LakeManifestProjectionV1.as_str
  rw [hhead, hmiddle, htail, intercalate_comma]
  have hname : field_string "name" manifest.root_name =
      json_string "name".toList ++ ':' :: json_string manifest.root_name := rfl
  rw [hname]
  simp only [List.flatMap_cons, List.flatMap_nil, List.append_assoc, List.cons_append,
    List.nil_append, List.append_nil]

theorem derives_runtime (runtime : LakeRuntimePackagesProjectionV1) : ∃ s,
    runtime.as_str = s ++ ['\n'] ∧ Derives Nothing (.value (.Object (btree_map
      (runtime_members (runtime.entries.map entry_json))))) s := by
  have hmembers : List.Forall₂ (MemberText Nothing) (runtime_members (runtime.entries.map entry_json))
      (field_string "version" "1.2.0".toList ::
        (json_string "packages".toList ++ ':' :: '[' :: (entries_text runtime.entries ++ [']'])) ::
        []) :=
    .cons (field_string_text "version" _) (.cons (field_text "packages" (derives_entries _)) .nil)
  have hnames : ((runtime_members (runtime.entries.map entry_json)).map Prod.fst).Nodup := by
    simp only [runtime_members, List.map_cons, List.map_nil]
    decide
  refine ⟨_, ?_, derives_object hmembers hnames⟩
  have hhead : "\x7b\"version\":\"1.2.0\",\"packages\":[".toList =
      '\x7b' :: field_string "version" "1.2.0".toList ++ ',' :: json_string "packages".toList ++
        [':', '['] := by
    decide
  have htail : "]\x7d\n".toList = [']', '\x7d', '\n'] := by decide
  unfold LakeRuntimePackagesProjectionV1.as_str
  rw [hhead, htail, intercalate_comma]
  simp only [List.flatMap_cons, List.flatMap_nil, List.append_assoc, List.cons_append,
    List.nil_append, List.append_nil]

/-! ## Limits -/

theorem nodes_of_btree (entries : List (Str × StrictJson)) :
    (StrictJson.Object (btree_map entries)).nodes = 1 + nodes_of_entries entries := by
  rw [StrictJson.nodes, nodes_of_entries_perm (btree_map_perm entries)]

theorem depth_of_btree (entries : List (Str × StrictJson)) :
    (StrictJson.Object (btree_map entries)).depth = depth_of_entries entries := by
  rw [StrictJson.depth, depth_of_entries_perm (btree_map_perm entries)]

theorem optional_json_flat (value : Option Str) :
    (optional_json value).nodes = 1 ∧ (optional_json value).depth = 0 := by
  cases value <;> exact ⟨rfl, rfl⟩

/-- An entry has at most eleven nodes and one level. -/
theorem entry_json_small (entry : ProjectionEntry) :
    (entry_json entry).nodes ≤ 11 ∧ (entry_json entry).depth ≤ 1 := by
  unfold entry_json
  rw [nodes_of_btree, depth_of_btree]
  unfold entry_members source_members
  split <;> simp [nodes_of_entries, depth_of_entries, StrictJson.nodes, StrictJson.depth,
    optional_json_flat]

theorem entries_json_small (entries : List ProjectionEntry) :
    nodes_of_list (entries.map entry_json) ≤ 11 * entries.length ∧
      depth_of_list (entries.map entry_json) ≤ 2 := by
  induction entries with
  | nil => exact ⟨Nat.le_refl 0, Nat.zero_le 2⟩
  | cons entry entries ih =>
    have hentry := entry_json_small entry
    simp only [List.map_cons, nodes_of_list, depth_of_list, List.length_cons]
    omega

/-- A document of a projection is within the limits of the reader: it has at most six members
beside its packages, and a lock has at most 4096 packages. -/
theorem within_limits {entries : List ProjectionEntry} {members : List (Str × StrictJson)}
    (hcount : entries.length ≤ MAX_LOCK_PACKAGES_V1)
    (hnodes : nodes_of_entries members ≤ 6 + nodes_of_list (entries.map entry_json))
    (hdepth : depth_of_entries members ≤ 1 + depth_of_list (entries.map entry_json)) :
    WithinLimits (.Object (btree_map members)) := by
  obtain ⟨hsmall, hflat⟩ := entries_json_small entries
  unfold MAX_LOCK_PACKAGES_V1 at hcount
  unfold WithinLimits MAX_JSON_DEPTH MAX_JSON_NODES
  rw [nodes_of_btree, depth_of_btree]
  omega

theorem blank_line : Blank ['\n'] := fun c hc => by rw [List.mem_singleton.mp hc]; rfl

theorem manifest_parses (manifest : LakeManifestProjectionV1)
    (hcount : manifest.entries.length ≤ MAX_LOCK_PACKAGES_V1) :
    parse_strict_json manifest.as_str = .ok (.Object (btree_map
      (manifest_members manifest.root_name (manifest.entries.map entry_json)))) := by
  obtain ⟨s, htext, hs⟩ := derives_manifest manifest
  have hlimits : WithinLimits (.Object (btree_map
      (manifest_members manifest.root_name (manifest.entries.map entry_json)))) := by
    apply within_limits hcount
    · simp only [manifest_members, nodes_of_entries, StrictJson.nodes]
      omega
    · simp only [manifest_members, depth_of_entries, StrictJson.depth]
      omega
  have hread := parse_written blank_nil hs blank_line hlimits
  rwa [List.nil_append, ← htext] at hread

theorem runtime_parses (runtime : LakeRuntimePackagesProjectionV1)
    (hcount : runtime.entries.length ≤ MAX_LOCK_PACKAGES_V1) :
    parse_strict_json runtime.as_str = .ok (.Object (btree_map
      (runtime_members (runtime.entries.map entry_json)))) := by
  obtain ⟨s, htext, hs⟩ := derives_runtime runtime
  have hlimits : WithinLimits (.Object (btree_map
      (runtime_members (runtime.entries.map entry_json)))) := by
    apply within_limits hcount
    · simp only [runtime_members, nodes_of_entries, StrictJson.nodes]
      omega
    · simp only [runtime_members, depth_of_entries, StrictJson.depth]
      omega
  have hread := parse_written blank_nil hs blank_line hlimits
  rwa [List.nil_append, ← htext] at hread

/-! ## What an accepted projection says -/

/-- The one metadata item of a package. -/
structure Describes (metadata : List LakePackageProjectionMetadataV1) (package : LockedLeanPackageV1)
    (item : LakePackageProjectionMetadataV1) : Prop where
  supplied : item ∈ metadata
  own : item.key = package.key
  only : ∀ other ∈ metadata, other.key = package.key → other = item

/-- The source of a locked package. -/
def locked_source (package : LockedLeanPackageV1) (item : LakePackageProjectionMetadataV1) :
    ProjectionSource :=
  match package.resolved with
  | .Git url exact_revision subdir _ _ => .Git url.value exact_revision item.input_revision subdir
  | .PathSnapshot portable_path_token _ => .Path portable_path_token

/-- A package as a projection describes it, at a source. -/
def package_json (package : LockedLeanPackageV1) (item : LakePackageProjectionMetadataV1)
    (source : ProjectionSource) : StrictJson :=
  entry_json ⟨package.key.name, package.key.scope, item.inherited, item.config_file,
    item.manifest_file, source⟩

/-- The items that were found in checked metadata are the own ones of their packages. -/
theorem described {lock : LeanBunLockV1} {metadata sorted : List LakePackageProjectionMetadataV1}
    (h : validate_metadata lock metadata = .ok sorted) {package : LockedLeanPackageV1}
    {item : LakePackageProjectionMetadataV1}
    (hfind : sorted.find? (fun item => decide (item.key = package.key)) = some item) :
    Describes metadata package item := by
  unfold validate_metadata at h
  obtain ⟨⟨hadjacent⟩, -, h⟩ := bind_eq_ok.mp h
  dsimp only at h
  have hsorted : sorted = sort_by_key LakePackageProjectionMetadataV1.key metadata := by
    split at h
    · cases h
    · split at h
      · cases h
      · exact (Except.ok.inj h).symm
  rw [hsorted] at hfind
  obtain ⟨hmem, hkey⟩ := find_key_some hfind
  have hstrict := strictly_sorted_of_adjacent LakePackageProjectionMetadataV1.key
    (sort_by_key_sorted _ metadata) hadjacent
  refine ⟨(mem_sort_by_key _).mp hmem, hkey, fun other hother hsame => ?_⟩
  exact hstrict.eq_of_key _ ((mem_sort_by_key _).mpr hother) hmem (hsame.trans hkey.symm)

/-- One entry of a projection, with the item it was made from. -/
theorem projection_entry_eq_ok {lock : LeanBunLockV1}
    {metadata sorted : List LakePackageProjectionMetadataV1}
    {decisions : Option PackagePathDecisionSetV1} {runtime : Bool} {package : LockedLeanPackageV1}
    {entry : ProjectionEntry} (hmetadata : validate_metadata lock metadata = .ok sorted)
    (h : projection_entry sorted decisions runtime package = .ok entry) :
    ∃ item source, Describes metadata package item ∧
      projection_source package item decisions runtime = .ok source ∧
        entry_json entry = package_json package item source := by
  unfold projection_entry at h
  split at h
  · cases h
  · rename_i item hfind
    obtain ⟨source, hsource, h⟩ := bind_eq_ok.mp h
    rw [← Except.ok.inj h]
    exact ⟨item, source, described hmetadata hfind, hsource, rfl⟩

/-- A list of the packages of the lock, in its order, each with its own item and with a source
that is right for it. -/
def Lists (lock : LeanBunLockV1) (metadata : List LakePackageProjectionMetadataV1)
    (right : LockedLeanPackageV1 → LakePackageProjectionMetadataV1 → ProjectionSource → Prop)
    (packages : List StrictJson) : Prop :=
  List.Forall₂ (fun package json => ∃ item source, Describes metadata package item ∧
    right package item source ∧ json = package_json package item source) lock.packages packages

theorem lists_of_entries {lock : LeanBunLockV1}
    {metadata sorted : List LakePackageProjectionMetadataV1}
    {decisions : Option PackagePathDecisionSetV1} {runtime : Bool} {entries : List ProjectionEntry}
    {right : LockedLeanPackageV1 → LakePackageProjectionMetadataV1 → ProjectionSource → Prop}
    (hmetadata : validate_metadata lock metadata = .ok sorted)
    (h : lock.packages.mapM (projection_entry sorted decisions runtime) = .ok entries)
    (hright : ∀ package item source,
      projection_source package item decisions runtime = .ok source → right package item source) :
    entries.length ≤ MAX_LOCK_PACKAGES_V1 ∧ Lists lock metadata right (entries.map entry_json) := by
  have hentries := mapM_eq_ok_iff.mp h
  refine ⟨hentries.length_eq ▸ lock.count_bounded, ?_⟩
  unfold Lists
  rw [List.forall₂_map_right_iff]
  refine hentries.imp fun package entry hentry => ?_
  obtain ⟨item, source, hitem, hsource, hjson⟩ := projection_entry_eq_ok hmetadata hentry
  exact ⟨item, source, hitem, hright package item source hsource, hjson⟩

/-- **The projections of a lock are read back.** The strict reader takes both texts, and what it
returns lists the packages of the lock in their order: in the manifest with their own sources,
at run time with the paths that were decided for them. -/
theorem projections_read_back {declaration : LakeRootDeclarationV1} {lock : LeanBunLockV1}
    {metadata : List LakePackageProjectionMetadataV1} {decisions : PackagePathDecisionSetV1}
    {manifest : LakeManifestProjectionV1} {runtime : LakeRuntimePackagesProjectionV1}
    (hmanifest : LakeManifestProjectionV1.new declaration lock metadata = .ok manifest)
    (hruntime : LakeRuntimePackagesProjectionV1.from_bun_decisions lock decisions metadata =
      .ok runtime) :
    (∃ packages, parse_strict_json manifest.as_str =
        .ok (.Object (btree_map (manifest_members declaration.root_name packages))) ∧
      Lists lock metadata (fun package item source => source = locked_source package item) packages) ∧
    ∃ packages, parse_strict_json runtime.as_str = .ok (.Object (btree_map (runtime_members packages))) ∧
      Lists lock metadata (fun package _ source => ∃ decision ∈ decisions.decisions,
        decision.package = package.key ∧ source = .Path decision.final_path) packages := by
  constructor
  · unfold LakeManifestProjectionV1.new at hmanifest
    obtain ⟨_, -, hmanifest⟩ := bind_eq_ok.mp hmanifest
    obtain ⟨sorted, hsorted, hmanifest⟩ := bind_eq_ok.mp hmanifest
    obtain ⟨entries, hentries, hmanifest⟩ := bind_eq_ok.mp hmanifest
    rw [← Except.ok.inj hmanifest]
    obtain ⟨hcount, hlists⟩ := @lists_of_entries _ _ _ _ _ _ (fun package item source =>
      source = locked_source package item) hsorted hentries fun package item source hsource => by
        unfold projection_source at hsource
        rw [if_neg (by decide)] at hsource
        unfold locked_source
        cases hresolved : package.resolved with
        | Git url exact_revision subdir tree_sha256 archive_sha256 =>
          rw [hresolved] at hsource
          exact (Except.ok.inj hsource).symm
        | PathSnapshot portable_path_token tree_sha256 =>
          rw [hresolved] at hsource
          exact (Except.ok.inj hsource).symm
    exact ⟨_, manifest_parses ⟨_, entries⟩ hcount, hlists⟩
  · unfold LakeRuntimePackagesProjectionV1.from_bun_decisions at hruntime
    obtain ⟨sorted, hsorted, hruntime⟩ := bind_eq_ok.mp hruntime
    obtain ⟨_, -, hruntime⟩ := bind_eq_ok.mp hruntime
    obtain ⟨entries, hentries, hruntime⟩ := bind_eq_ok.mp hruntime
    rw [← Except.ok.inj hruntime]
    obtain ⟨hcount, hlists⟩ := @lists_of_entries _ _ _ _ _ _ (fun package _ source =>
      ∃ decision ∈ decisions.decisions, decision.package = package.key ∧
        source = .Path decision.final_path) hsorted hentries fun package item source hsource => by
        unfold projection_source at hsource
        rw [if_pos rfl] at hsource
        dsimp only at hsource
        split at hsource
        · cases hsource
        · rename_i decision hfind
          obtain ⟨hmem, hkey⟩ := find_key_some hfind
          exact ⟨decision, hmem, hkey, (Except.ok.inj hsource).symm⟩
    exact ⟨_, runtime_parses ⟨entries⟩ hcount, hlists⟩

/-! ## A package that is fetched with Git -/

def batteries_revision : Str := List.replicate 40 'b'

theorem batteries_scope_valid : valid_atom "leanprover".toList MAX_NAME_BYTES true = true := by decide
theorem batteries_name_valid : valid_atom "batteries".toList MAX_NAME_BYTES false = true := by decide

def batteries_key : PackageKeyV1 :=
  ⟨"leanprover".toList, "batteries".toList, batteries_scope_valid, batteries_name_valid⟩

theorem batteries_url_parsed : ∃ raw, parse_source_url raw = .ok "https://example.org/batteries".toList :=
  ⟨"https://example.org/batteries.git".toList, by decide⟩

def batteries_url : CanonicalSourceUrlV1 := ⟨"https://example.org/batteries".toList, batteries_url_parsed⟩

theorem batteries_revision_valid : valid_git_revision batteries_revision = true := by decide

theorem batteries_compatible : sources_compatible (.Git batteries_url none (no_text_valid _))
    (.Git batteries_url batteries_revision none batteries_revision_valid no_subdir_valid) = true := by
  decide

theorem batteries_dependencies_counted : ([] : List PackageKeyV1).length ≤ MAX_PACKAGE_DEPENDENCIES_V1 ∧
    [digest []].length ≤ MAX_PACKAGE_DEPENDENCIES_V1 := by decide

theorem batteries_integrity : ¬((ResolvedPackageSourceV1.Git batteries_url batteries_revision none
    batteries_revision_valid no_subdir_valid).is_git = true ∧ some (digest []) = none) :=
  fun h => Option.some_ne_none _ h.2

def batteries_package : LockedLeanPackageV1 where
  key := batteries_key
  requested := .Git batteries_url none (no_text_valid _)
  resolved := .Git batteries_url batteries_revision none batteries_revision_valid no_subdir_valid
  download_integrity := some (digest [])
  source_tree_sha256 := digest []
  config_sha256 := digest []
  manifest_sha256 := none
  dependencies := []
  provenance_digests := [digest []]
  selected_source_identity := digest []
  counts_bounded := batteries_dependencies_counted
  integrity_present := batteries_integrity
  compatible := batteries_compatible
  dependencies_sorted := no_keys_sorted
  no_self_dependency := List.not_mem_nil
  provenance_sorted := empty_digest_sorted
  provenance_present := empty_digest_present

theorem batteries_graph_valid : validate_graph [batteries_package] = .ok () := by decide

theorem batteries_counted : [batteries_package].length ≤ MAX_LOCK_PACKAGES_V1 := by decide

theorem batteries_locked_sorted : StrictlySorted LockedLeanPackageV1.key [batteries_package] :=
  List.pairwise_singleton _ _

def batteries_lock : LeanBunLockV1 where
  lean_toolchain := "lean4".toList
  lean_compiler_githash := List.replicate 40 '1'
  lake_version := "5.0.0".toList
  root_config_sha256 := digest []
  root_declaration_sha256 := digest []
  packages := [batteries_package]
  graph_sha256 := hash_graph [batteries_package]
  toolchain_valid := lean4_valid
  githash_valid := ones_revision_valid
  lake_valid := lake_five_valid
  count_bounded := batteries_counted
  packages_sorted := batteries_locked_sorted
  graph_valid := batteries_graph_valid
  graph_hashed := rfl

theorem batteries_source_valid : valid_dependency_source
    (.Git "https://example.org/batteries".toList none none) = true := by decide

theorem batteries_root_name_valid : valid_atom "app".toList MAX_SHORT_BYTES false = true := by decide

theorem batteries_roots_counted : 1 ≤ MAX_ROOT_DEPENDENCIES_V1 := by decide

theorem batteries_root_config_valid : "lakefile.toml".toList = "lakefile.toml".toList ∨
    "lakefile.toml".toList = "lakefile.lean".toList := .inl rfl

def batteries_root : LakeRootDeclarationV1 where
  root_name := "app".toList
  config_file := "lakefile.toml".toList
  dependencies := [⟨batteries_key, none, .Git "https://example.org/batteries".toList none none,
    no_text_valid _, batteries_source_valid⟩]
  name_valid := batteries_root_name_valid
  config_valid := batteries_root_config_valid
  count_bounded := batteries_roots_counted
  dependencies_sorted := List.pairwise_singleton _ _

theorem batteries_config_valid : valid_relative_path "lakefile.lean".toList = true := by decide

theorem batteries_input_valid : valid_atom "\"v4\"".toList MAX_TEXT_BYTES false = true := by decide

/-- The metadata of the package, with an input revision that is escaped in the text. -/
def batteries_metadata : LakePackageProjectionMetadataV1 where
  key := batteries_key
  inherited := false
  config_file := "lakefile.lean".toList
  manifest_file := none
  input_revision := some "\"v4\"".toList
  config_valid := batteries_config_valid
  manifest_valid := none_passes
  revision_valid := some_passes batteries_input_valid

theorem batteries_path_contained : ∃ generation_root,
    valid_contained_absolute_path generation_root "/g/packages/batteries".toList = true :=
  ⟨"/g".toList, by decide⟩

def batteries_decision : PackagePathDecisionV1 where
  package := batteries_key
  provenance_set_sha256 := digest []
  selected_source_identity := digest []
  final_path := "/g/packages/batteries".toList
  store_object_sha256 := digest []
  source_tree_sha256 := digest []
  generation := digest []
  path_contained := batteries_path_contained

def batteries_decisions : PackagePathDecisionSetV1 :=
  ⟨[batteries_decision], List.pairwise_singleton _ _⟩

theorem projections_read_back_batteries : ∃ manifest runtime,
    LakeManifestProjectionV1.new batteries_root batteries_lock [batteries_metadata] = .ok manifest ∧
    LakeRuntimePackagesProjectionV1.from_bun_decisions batteries_lock batteries_decisions
      [batteries_metadata] = .ok runtime ∧
    (∃ packages, parse_strict_json manifest.as_str =
      .ok (.Object (btree_map (manifest_members "app".toList packages)))) ∧
    ∃ packages, parse_strict_json runtime.as_str =
      .ok (.Object (btree_map (runtime_members packages))) := by
  obtain ⟨manifest, hmanifest⟩ := exists_of_isOk (x := LakeManifestProjectionV1.new batteries_root
    batteries_lock [batteries_metadata]) (by decide)
  obtain ⟨runtime, hruntime⟩ := exists_of_isOk (x := LakeRuntimePackagesProjectionV1.from_bun_decisions
    batteries_lock batteries_decisions [batteries_metadata]) (by decide)
  obtain ⟨⟨packages, hread, -⟩, packages', hread', -⟩ := projections_read_back hmanifest hruntime
  exact ⟨manifest, runtime, hmanifest, hruntime, ⟨packages, hread⟩, packages', hread'⟩

end LeanBun.Bridge
