/-
Copying the package of an object into a generation.

The entries of a plan are in the order of their paths, so the directory of a path
comes before the path: when an entry is copied its parents are there, and the copy is
the list of the copied entries behind what was in the tree before.

What is copied passes the gate, with one exception: the gate leaves the registered
cache of one package out, and never finds an entry of that path again.
-/
import LeanBun.Generation.Gate
import LeanBun.Generation.Progress

set_option autoImplicit false

namespace LeanBun.Generation

open LeanBun.Lib LeanBun.Core LeanBun.Store

/-! ## Directories above a path -/

/-- Everything above a listed path is a listed directory. -/
theorem listed_above {tree : Tree} (h : tree.Listing) {path above : List Str} {node : Node}
    (hentry : (path, node) ∈ tree) (habove : above <+: path) (hne : above ≠ []) (hlt : above ≠ path) :
    (above, .Directory) ∈ tree := by
  induction path using List.reverseRecOn generalizing node with
  | nil => exact absurd (List.prefix_nil.mp habove) hne
  | append_singleton init last ih =>
    rcases List.prefix_concat_iff.mp habove with heq | hinit
    · exact absurd heq hlt
    have hinit_ne : init ≠ [] := fun hnil => hne (List.prefix_nil.mp (hnil ▸ hinit))
    have hparent : (init, .Directory) ∈ tree := by
      have hup := h.parents _ hentry
      rw [List.dropLast_concat] at hup
      exact hup hinit_ne
    by_cases heq : above = init
    · rw [heq]
      exact hparent
    · exact ih hparent hinit heq

theorem dropLast_ne {path : List Str} (hne : path ≠ []) : path.dropLast ≠ path := by
  intro heq
  have hlength := congrArg List.length heq
  have hpos := List.length_pos_iff.mpr hne
  rw [List.length_dropLast] at hlength
  omega

theorem get_eq_none {tree : Tree} {path : List Str} :
    tree.get path = none ↔ ∀ node, (path, node) ∉ tree := by
  rw [LeanBun.Store.Tree.get, Option.map_eq_none_iff, find_key_none]
  exact ⟨fun h node hentry => h _ hentry rfl, fun h entry hentry hpath => h entry.2 (hpath ▸ hentry)⟩

/-- The parents of a path are names other than `..` below a directory, and listed. -/
structure Descends (tree : Tree) (base rest : List Str) : Prop where
  names : ['.', '.'] ∉ rest
  listed : ∀ above, above <+: rest → above ≠ [] → above ≠ rest →
    tree.get (base ++ above) = some .Directory

theorem Descends.step {tree : Tree} {base rest : List Str} {name : Str}
    (h : Descends tree base (name :: rest)) : Descends tree (base ++ [name]) rest := by
  refine ⟨fun hmem => h.names (List.mem_cons_of_mem _ hmem), fun above hprefix hne hlt => ?_⟩
  have hlisted := h.listed (name :: above) (List.cons_prefix_cons.mpr ⟨rfl, hprefix⟩) (by simp)
    fun heq => hlt (List.cons.inj heq).2
  rw [List.append_assoc, List.singleton_append]
  exact hlisted

/-- A directory that is there already. -/
theorem ensure_existing {tree : Tree} {base rest : List Str} (h : Descends tree base rest)
    (hrest : rest ≠ [] → tree.get (base ++ rest) = some .Directory) :
    ensure_private_descendant tree base rest = .ok tree := by
  induction rest generalizing base with
  | nil => rfl
  | cons name rest ih =>
    have hname : name ≠ ['.', '.'] := fun heq => h.names (heq ▸ List.mem_cons_self)
    have hget : tree.get (base ++ [name]) = some .Directory := by
      by_cases hnil : rest = []
      · rw [hnil] at hrest
        exact hrest (by simp)
      · refine h.listed [name] (List.cons_prefix_cons.mpr ⟨rfl, List.nil_prefix⟩) (by simp) ?_
        exact fun heq => hnil (List.cons.inj heq).2.symm
    unfold ensure_private_descendant
    rw [if_neg hname, hget]
    refine ih h.step fun _ => ?_
    rw [List.append_assoc, List.singleton_append]
    exact hrest (by simp)

/-- A directory that is not there yet, below directories that are. -/
theorem ensure_new {tree : Tree} {base rest : List Str} (h : Descends tree base rest)
    (hne : rest ≠ []) (hnew : tree.get (base ++ rest) = none) :
    ensure_private_descendant tree base rest = .ok (tree ++ [(base ++ rest, .Directory)]) := by
  induction rest generalizing base with
  | nil => exact absurd rfl hne
  | cons name rest ih =>
    have hname : name ≠ ['.', '.'] := fun heq => h.names (heq ▸ List.mem_cons_self)
    have hcons : base ++ name :: rest = (base ++ [name]) ++ rest := by
      rw [List.append_assoc, List.singleton_append]
    unfold ensure_private_descendant
    rw [if_neg hname]
    by_cases hnil : rest = []
    · rw [hnil] at hnew ⊢
      rw [hnew]
      rfl
    · have hget := h.listed [name] (List.cons_prefix_cons.mpr ⟨rfl, List.nil_prefix⟩) (by simp)
        fun heq => hnil (List.cons.inj heq).2.symm
      rw [hget, hcons]
      refine ih h.step hnil ?_
      rw [← hcons]
      exact hnew

/-! ## Paths of entries -/

/-- The parts of a valid path are names of files that are passed over nowhere. -/
theorem valid_path_parts {path : Str} (h : validate_relative_entry_path path = .ok ()) :
    split '/' path ≠ [] ∧ (∀ name ∈ split '/' path, file_name name = true) ∧
      portable_relative_path (split '/' path) = path ∧ normal_components path = some (split '/' path) := by
  have hsplit : split '/' path ≠ [] := List.splitOn_ne_nil '/' path
  have hslash : path.head? ≠ some '/' := by
    intro hhead
    unfold validate_relative_entry_path at h
    split at h
    · cases h
    · rw [if_pos (Or.inl hhead)] at h
      cases h
  have hparts : ∀ name ∈ split '/' path, name ≠ [] ∧ name ≠ ['.'] ∧ name ≠ ['.', '.'] := by
    intro name hname
    unfold validate_relative_entry_path at h
    split at h
    · cases h
    split at h
    · cases h
    by_contra hbad
    have hany : ((split '/' path).any fun part => decide (part = []) || decide (part = ['.']) ||
        decide (part = ['.', '.']) || reserved_name part) = true := by
      refine List.any_eq_true.mpr ⟨name, hname, ?_⟩
      rw [not_and_or, not_and_or, not_not, not_not, not_not] at hbad
      rcases hbad with hbad | hbad | hbad <;> rw [hbad] <;> rfl
    rw [if_pos (Or.inr hany)] at h
    cases h
  have hnames : ∀ name ∈ split '/' path, file_name name = true := by
    intro name hname
    obtain ⟨hnil, hdot, hdots⟩ := hparts name hname
    have hno : '/' ∉ name := not_mem_of_mem_split hname
    unfold file_name
    simp [hnil, hdot, hdots, hno]
  refine ⟨hsplit, hnames, List.intercalate_splitOn '/', ?_⟩
  unfold normal_components
  have hhead : (split '/' path).head? ≠ some ['.'] := fun hhead =>
    (hparts _ (List.mem_of_mem_head? hhead)).2.1 rfl
  have hdots : (split '/' path).contains ['.', '.'] ≠ true := fun hmem =>
    (hparts _ (List.contains_iff_mem.mp hmem)).2.2 rfl
  rw [if_neg (not_or.mpr ⟨hslash, not_or.mpr ⟨hhead, hdots⟩⟩)]
  unfold path_components
  rw [List.filter_eq_self.mpr]
  intro name hname
  obtain ⟨hnil, hdot, -⟩ := hparts name hname
  rw [decide_eq_true hnil, decide_eq_true hdot]
  rfl

/-- A path comes after the directories above it. -/
theorem path_key_above {above path : List Str} (habove : above <+: path) (hne : above ≠ [])
    (hlt : above ≠ path) :
    path_key (portable_relative_path above) < path_key (portable_relative_path path) := by
  obtain ⟨rest, rfl⟩ := habove
  have hrest : rest ≠ [] := fun hnil => hlt (by rw [hnil, List.append_nil])
  have htext : portable_relative_path (above ++ rest) =
      portable_relative_path above ++ '/' :: portable_relative_path rest := by
    unfold portable_relative_path
    induction above with
    | nil => exact absurd rfl hne
    | cons name above ih =>
      by_cases hnil : above = []
      · rw [hnil, List.singleton_append, List.intercalate_cons_of_ne_nil hrest,
          List.intercalate_singleton]
        simp
      · have hsome : above ++ rest ≠ [] := fun h => hnil (List.append_eq_nil_iff.mp h).1
        rw [List.cons_append, List.intercalate_cons_of_ne_nil hsome,
          List.intercalate_cons_of_ne_nil hnil,
          ih hnil fun heq => hrest (List.self_eq_append_right.mp heq)]
        simp
  have hmore : path_key ('/' :: portable_relative_path rest) ≠ [] := by
    unfold path_key as_bytes
    simp
  rw [htext]
  unfold path_key at hmore ⊢
  rw [as_bytes_append, List.map_append]
  obtain ⟨byte, bytes, hbytes⟩ := List.exists_cons_of_ne_nil hmore
  rw [hbytes]
  have hless : (as_bytes (portable_relative_path above)).map UInt8.toNat ++ [] <
      (as_bytes (portable_relative_path above)).map UInt8.toNat ++ byte :: bytes :=
    List.append_left_lt (List.nil_lt_cons byte bytes)
  rw [List.append_nil] at hless
  exact hless

/-! ## The object and its copy -/

/-- The object of a package as it lies in the store: the entries and the digest of the
package are those of its directory, and its files can be read. -/
structure StoredObject (objects : ObjectTrees) (package : GenerationPackageV1) (object : Tree) :
    Prop where
  listing : object.Listing
  planned : plan_directory (some object) .registered_provider = .ok package.entries
  digested : package.source_tree_sha256 = tree_digest package.entries
  reverified : objects.tree_sha256 package.object_tree_path =
    (normalized_directory_tree_sha256_v1 (some object) .registered_provider).mapError
      LeanStoreError.message
  files : ∀ relative mode bytes, (relative, .File mode bytes) ∈ object →
    objects.file (path_join package.object_tree_path (portable_relative_path relative)) = some bytes

/-- What becomes of an entry. -/
def copied_node (object : Tree) (entry : NormalizedTreeEntryV1) : Node :=
  match object.get (split '/' entry.path) with
  | some (.File _ bytes) => .File entry.mode bytes
  | _ => .Directory

/-- And where. -/
def copied (object : Tree) (place : List Str) (entry : NormalizedTreeEntryV1) : List Str × Node :=
  (place ++ split '/' entry.path, copied_node object entry)

/-- A directory that nothing lies in yet. -/
structure FreshPlace (tree : Tree) (place : List Str) : Prop where
  listing : tree.Listing
  directory : tree.is_dir place
  fresh : tree.below place = []

section Copy

variable {objects : ObjectTrees} {package : GenerationPackageV1} {object tree : Tree} {place : List Str}

theorem StoredObject.sorted (h : StoredObject objects package object) :
    StrictlySorted (fun entry => path_key entry.path) package.entries :=
  plan_sorted h.listing registered_limits.1 h.planned

theorem StoredObject.valid (h : StoredObject objects package object) {entry : NormalizedTreeEntryV1}
    (hentry : entry ∈ package.entries) : validate_relative_entry_path entry.path = .ok () :=
  (plan_entry_valid h.listing registered_limits.1 h.planned hentry).1

theorem StoredObject.reverify (h : StoredObject objects package object) :
    reverify_object objects package = .ok () := by
  have hdigest : normalized_directory_tree_sha256_v1 (some object) .registered_provider =
      .ok (tree_digest package.entries) := by
    unfold normalized_directory_tree_sha256_v1 LeanStoreLimitsV1.validate
    rw [ensure_ok valid_limits_presets.2]
    show (plan_directory (some object) .registered_provider >>= _) = _
    rw [h.planned]
    rfl
  have hread : objects.tree_sha256 package.object_tree_path = .ok (tree_digest package.entries) := by
    rw [h.reverified, hdigest]
    rfl
  unfold reverify_object
  rw [hread]
  exact if_pos h.digested.symm

/-- Every entry stands for what lies in the object under its path. -/
theorem StoredObject.source (h : StoredObject objects package object) {entry : NormalizedTreeEntryV1}
    (hentry : entry ∈ package.entries) : ∃ node, (split '/' entry.path, node) ∈ object ∧
      source_entry entry.path node = some entry := by
  obtain ⟨⟨relative, node⟩, hmem, hplanned⟩ :=
    (mem_plan h.listing registered_limits.1 h.planned).mp hentry
  obtain ⟨-, -, hsource⟩ := planned_entry_eq_some.mp hplanned
  obtain ⟨hne, hnames⟩ := h.listing.names _ hmem
  have hpath := source_entry_path hsource
  dsimp only at hsource hpath hne hnames
  refine ⟨node, ?_, ?_⟩
  · rw [hpath, split_portable hne hnames]
    exact hmem
  · rw [hpath]
    exact hsource

/-- The directories above an entry are entries before it. -/
theorem StoredObject.above (h : StoredObject objects package object) {entry : NormalizedTreeEntryV1}
    (hentry : entry ∈ package.entries) {above : List Str} (habove : above <+: split '/' entry.path)
    (hne : above ≠ []) (hlt : above ≠ split '/' entry.path) :
    ∃ directory ∈ package.entries, split '/' directory.path = above ∧
      copied_node object directory = .Directory ∧ path_key directory.path < path_key entry.path := by
  obtain ⟨node, hmem, -⟩ := h.source hentry
  have hlisted := listed_above h.listing hmem habove hne hlt
  obtain ⟨-, hnames, htext, -⟩ := valid_path_parts (h.valid hentry)
  have hsplit : split '/' (portable_relative_path above) = above :=
    split_portable hne fun name hname => hnames name (habove.mem hname)
  have hfree : ¬reserved (above, Node.Directory) := by
    have hnone := valid_not_reserved (h.valid hentry)
    show ¬(split '/' (portable_relative_path above)).any reserved_name = true
    rw [hsplit]
    intro hany
    obtain ⟨part, hpart, hname⟩ := List.any_eq_true.mp hany
    have htrue : (split '/' entry.path).any reserved_name = true :=
      List.any_eq_true.mpr ⟨part, habove.mem hpart, hname⟩
    rw [hnone] at htrue
    cases htrue
  refine ⟨⟨portable_relative_path above, .Directory, 0o755, 0, none⟩, ?_, hsplit, ?_, ?_⟩
  · refine (mem_plan h.listing registered_limits.1 h.planned).mpr ⟨_, hlisted, ?_⟩
    exact planned_entry_eq_some.mpr ⟨hfree, List.not_mem_nil, rfl⟩
  · unfold copied_node
    dsimp only
    rw [hsplit, (get_eq_some h.listing).mpr hlisted]
  · have hkey := path_key_above habove hne hlt
    rw [htext] at hkey
    exact hkey

/-- **Copying one entry** whose parents are there and whose path is free. -/
theorem materialize_entry_copied (h : StoredObject objects package object)
    {entry : NormalizedTreeEntryV1} (hentry : entry ∈ package.entries)
    (hdescends : Descends tree place (split '/' entry.path))
    (hnew : tree.get (place ++ split '/' entry.path) = none) :
    materialize_entry objects package place entry tree = (.ok (), tree ++ [copied object place entry]) := by
  obtain ⟨hne, hnames, htext, hnormal⟩ := valid_path_parts (h.valid hentry)
  obtain ⟨node, hmem, hsource⟩ := h.source hentry
  have hget := (get_eq_some h.listing).mpr hmem
  unfold materialize_entry copied copied_node
  rw [hnormal, hget]
  dsimp only
  cases node with
  | Directory =>
    have hkind : entry.kind = .Directory := by rw [← Option.some.inj hsource]
    rw [hkind, ensure_new hdescends hne hnew]
  | File mode bytes =>
    have hshape := Option.some.inj hsource
    have hkind : entry.kind = .File := by
      rw [← hshape]
      rfl
    have hsize : entry.size = bytes.length := by
      rw [← hshape]
      rfl
    have hparents : Descends tree place (split '/' entry.path).dropLast := by
      refine ⟨fun hdots => hdescends.names ((List.dropLast_prefix _).mem hdots), ?_⟩
      intro above habove habove_ne habove_lt
      refine hdescends.listed above (habove.trans (List.dropLast_prefix _)) habove_ne fun heq => ?_
      have hlength := habove.length_le
      have hpos := List.length_pos_iff.mpr hne
      rw [heq, List.length_dropLast] at hlength
      omega
    have hexisting : ensure_private_descendant tree place (split '/' entry.path).dropLast = .ok tree :=
      ensure_existing hparents fun hsome =>
        hdescends.listed _ (List.dropLast_prefix _) hsome (dropLast_ne hne)
    have hfile := h.files _ _ _ hmem
    rw [htext] at hfile
    have htake : bytes.take (entry.size + 1) = bytes := List.take_of_length_le (by omega)
    rw [hkind, hexisting]
    dsimp only
    rw [hfile, hnew]
    dsimp only
    rw [if_neg (by simp), htake, if_pos hsize.symm]
  | Symlink => cases hsource
  | Special => cases hsource

/-- A tree with some of the copies, and the directories above each of them. -/
theorem copied_listing (h : StoredObject objects package object) (hplace : FreshPlace tree place)
    {part : List NormalizedTreeEntryV1} (hsub : ∀ entry ∈ part, entry ∈ package.entries)
    (hnodup : (part.map NormalizedTreeEntryV1.path).Nodup)
    (hclosed : ∀ entry ∈ part, ∀ above, above <+: split '/' entry.path → above ≠ [] →
      above ≠ split '/' entry.path → ∃ directory ∈ part, split '/' directory.path = above ∧
        copied_node object directory = .Directory) :
    (tree ++ part.map (copied object place)).Listing := by
  have hparts := fun entry hentry => valid_path_parts (h.valid (hsub entry hentry))
  have hplace_listed : place ≠ [] → (place, .Directory) ∈ tree := fun hne =>
    (get_eq_some hplace.listing).mp (hplace.directory.resolve_left hne)
  refine ⟨?_, ?_, ?_⟩
  · intro listed hlisted
    rcases List.mem_append.mp hlisted with hold | hnew
    · exact hplace.listing.names listed hold
    · obtain ⟨entry, hentry, rfl⟩ := List.mem_map.mp hnew
      obtain ⟨hne, hnames, -, -⟩ := hparts entry hentry
      refine ⟨fun hnil => hne (List.append_eq_nil_iff.mp hnil).2, fun name hname => ?_⟩
      rcases List.mem_append.mp hname with hname | hname
      · by_cases hnil : place = []
        · rw [hnil] at hname
          exact absurd hname List.not_mem_nil
        · exact (hplace.listing.names _ (hplace_listed hnil)).2 name hname
      · exact hnames name hname
  · rw [List.map_append, List.map_map, List.nodup_append]
    refine ⟨hplace.listing.paths, ?_, ?_⟩
    · have hinj : ∀ a ∈ part, ∀ b ∈ part,
          (Prod.fst ∘ copied object place) a = (Prod.fst ∘ copied object place) b → a = b := by
        intro a ha b hb heq
        have hsplit : split '/' a.path = split '/' b.path := List.append_cancel_left heq
        have hpath : a.path = b.path := by
          rw [← (hparts a ha).2.2.1, hsplit, (hparts b hb).2.2.1]
        exact List.inj_on_of_nodup_map hnodup ha hb hpath
      exact List.Nodup.map_on hinj hnodup.of_map
    · intro path hpath other hother heq
      obtain ⟨listed, hlisted, rfl⟩ := List.mem_map.mp hpath
      obtain ⟨entry, hentry, rfl⟩ := List.mem_map.mp hother
      have hbelow : (split '/' entry.path, listed.2) ∈ tree.below place := by
        refine mem_below.mpr ⟨(hparts entry hentry).1, ?_⟩
        rw [show place ++ split '/' entry.path = listed.1 from heq.symm]
        exact hlisted
      rw [hplace.fresh] at hbelow
      exact absurd hbelow List.not_mem_nil
  · intro listed hlisted hparent
    rcases List.mem_append.mp hlisted with hold | hnew
    · exact List.mem_append_left _ (hplace.listing.parents listed hold hparent)
    · obtain ⟨entry, hentry, rfl⟩ := List.mem_map.mp hnew
      obtain ⟨hne, -, -, -⟩ := hparts entry hentry
      have hdrop : (place ++ split '/' entry.path).dropLast =
          place ++ (split '/' entry.path).dropLast := List.dropLast_append_of_ne_nil hne
      show ((place ++ split '/' entry.path).dropLast, Node.Directory) ∈ _
      change (place ++ split '/' entry.path).dropLast ≠ [] at hparent
      rw [hdrop] at hparent ⊢
      by_cases hroot : (split '/' entry.path).dropLast = []
      · rw [hroot, List.append_nil] at hparent ⊢
        exact List.mem_append_left _ (hplace_listed hparent)
      · obtain ⟨directory, hdirectory, hsplit, hnode⟩ :=
          hclosed entry hentry _ (List.dropLast_prefix _) hroot (dropLast_ne hne)
        refine List.mem_append_right _ (List.mem_map.mpr ⟨directory, hdirectory, ?_⟩)
        unfold copied
        rw [hsplit, hnode]

/-! ## The loop -/

variable {done todo : List NormalizedTreeEntryV1}

/-- What is smaller than an entry that is next is among the entries before it. -/
theorem mem_done (h : StoredObject objects package object) {next : NormalizedTreeEntryV1}
    (hsplit : done ++ next :: todo = package.entries) {entry : NormalizedTreeEntryV1}
    (hentry : entry ∈ package.entries) (hlt : path_key entry.path < path_key next.path) :
    entry ∈ done := by
  have hsorted := h.sorted
  unfold StrictlySorted at hsorted
  rw [← hsplit] at hentry hsorted
  rw [List.pairwise_append, List.pairwise_cons] at hsorted
  rcases List.mem_append.mp hentry with hmem | hmem
  · exact hmem
  · rcases List.mem_cons.mp hmem with rfl | hmem
    · exact absurd hlt (lt_irrefl _)
    · exact absurd (hlt.trans (hsorted.2.1.1 entry hmem)) (lt_irrefl _)

/-- The entries before any point hold the directories above them. -/
theorem done_closed (h : StoredObject objects package object)
    (hsplit : done ++ todo = package.entries) : ∀ entry ∈ done, ∀ above,
      above <+: split '/' entry.path → above ≠ [] → above ≠ split '/' entry.path →
        ∃ directory ∈ done, split '/' directory.path = above ∧
          copied_node object directory = .Directory := by
  intro entry hentry above habove hne hlt
  have hmem : entry ∈ package.entries := by
    rw [← hsplit]
    exact List.mem_append_left _ hentry
  obtain ⟨directory, hdirectory, hpath, hnode, hkey⟩ := h.above hmem habove hne hlt
  obtain ⟨front, back, rfl⟩ := List.append_of_mem hentry
  have hcut : front ++ entry :: (back ++ todo) = package.entries := by
    rw [← hsplit, List.append_assoc, List.cons_append]
  exact ⟨directory, List.mem_append_left _ (mem_done h hcut hdirectory hkey), hpath, hnode⟩

theorem done_listing (h : StoredObject objects package object) (hplace : FreshPlace tree place)
    (hsplit : done ++ todo = package.entries) :
    (tree ++ done.map (copied object place)).Listing := by
  have hpaths : (package.entries.map NormalizedTreeEntryV1.path).Nodup := by
    have hkeys := h.sorted.nodup
    refine List.Nodup.of_map path_key ?_
    rw [List.map_map]
    exact hkeys
  refine copied_listing h hplace (fun entry hentry => ?_) ?_ (done_closed h hsplit)
  · rw [← hsplit]
    exact List.mem_append_left _ hentry
  · rw [← hsplit, List.map_append, List.nodup_append] at hpaths
    exact hpaths.1

/-- The next entry finds its parents, and its path is free. -/
theorem next_entry (h : StoredObject objects package object) (hplace : FreshPlace tree place)
    {next : NormalizedTreeEntryV1} (hsplit : done ++ next :: todo = package.entries) :
    materialize_entry objects package place next (tree ++ done.map (copied object place)) =
      (.ok (), tree ++ (done ++ [next]).map (copied object place)) := by
  have hnext : next ∈ package.entries := by
    rw [← hsplit]
    exact List.mem_append_right _ List.mem_cons_self
  have hlisting := done_listing h hplace hsplit
  obtain ⟨hne, hnames, htext, -⟩ := valid_path_parts (h.valid hnext)
  have hdescends : Descends (tree ++ done.map (copied object place)) place (split '/' next.path) := by
    refine ⟨fun hdots => ?_, fun above habove habove_ne habove_lt => ?_⟩
    · have hname := hnames _ hdots
      revert hname
      decide
    · obtain ⟨directory, hdirectory, hpath, hnode, hkey⟩ := h.above hnext habove habove_ne habove_lt
      have hmem := mem_done h hsplit hdirectory hkey
      refine (get_eq_some hlisting).mpr (List.mem_append_right _ (List.mem_map.mpr ⟨directory, hmem, ?_⟩))
      unfold copied
      rw [hpath, hnode]
  have hnew : (tree ++ done.map (copied object place)).get (place ++ split '/' next.path) = none := by
    refine get_eq_none.mpr fun node hlisted => ?_
    rcases List.mem_append.mp hlisted with hold | hcopied
    · have hbelow := mem_below.mpr ⟨hne, hold⟩
      rw [hplace.fresh] at hbelow
      exact absurd hbelow List.not_mem_nil
    · obtain ⟨entry, hentry, heq⟩ := List.mem_map.mp hcopied
      have hsorted := h.sorted
      unfold StrictlySorted at hsorted
      rw [← hsplit, List.pairwise_append] at hsorted
      have hless : path_key entry.path < path_key next.path :=
        hsorted.2.2 entry hentry next List.mem_cons_self
      have hmem : entry ∈ package.entries := by
        rw [← hsplit]
        exact List.mem_append_left _ hentry
      have hsame : split '/' entry.path = split '/' next.path :=
        List.append_cancel_left (Prod.mk.inj heq).1
      rw [← (valid_path_parts (h.valid hmem)).2.2.1, hsame, htext] at hless
      exact absurd hless (lt_irrefl _)
  rw [materialize_entry_copied h hnext hdescends hnew, List.map_append, List.map_singleton,
    List.append_assoc]

/-- What the copy of a package leaves. -/
def copied_tree (object tree : Tree) (place : List Str) (package : GenerationPackageV1) : Tree :=
  tree ++ package.entries.map (copied object place)

/-! ## The gate on a copy -/

theorem read_only_fst (tree : Tree) :
    (make_generation_read_only tree).map Prod.fst = tree.map Prod.fst := by
  unfold make_generation_read_only
  rw [List.map_map]
  rfl

theorem mem_read_only {listed : List Str × Node} : listed ∈ make_generation_read_only tree ↔
    ∃ node, (listed.1, node) ∈ tree ∧ listed.2 = read_only_node node := by
  unfold make_generation_read_only
  rw [List.mem_map]
  constructor
  · rintro ⟨⟨path, node⟩, hmem, rfl⟩
    exact ⟨node, hmem, rfl⟩
  · rintro ⟨node, hmem, heq⟩
    exact ⟨(listed.1, node), hmem, by rw [← heq]⟩

theorem read_only_listing (h : tree.Listing) : (make_generation_read_only tree).Listing := by
  refine ⟨?_, ?_, ?_⟩
  · intro listed hlisted
    obtain ⟨node, hmem, -⟩ := mem_read_only.mp hlisted
    exact h.names (listed.1, node) hmem
  · rw [read_only_fst]
    exact h.paths
  · intro listed hlisted hparent
    obtain ⟨node, hmem, -⟩ := mem_read_only.mp hlisted
    exact mem_read_only.mpr ⟨.Directory, h.parents (listed.1, node) hmem hparent, rfl⟩

/-- Below the place of the package there are the copies of its entries. -/
theorem mem_below_copied (h : StoredObject objects package object) (hplace : FreshPlace tree place)
    {listed : List Str × Node} :
    listed ∈ (make_generation_read_only (copied_tree object tree place package)).below place ↔
      ∃ entry ∈ package.entries, listed =
        (split '/' entry.path, read_only_node (copied_node object entry)) := by
  obtain ⟨relative, node⟩ := listed
  rw [mem_below, mem_read_only]
  constructor
  · rintro ⟨hne, other, hmem, rfl⟩
    rcases List.mem_append.mp hmem with hold | hcopied
    · have hbelow := mem_below.mpr ⟨hne, hold⟩
      rw [hplace.fresh] at hbelow
      exact absurd hbelow List.not_mem_nil
    · obtain ⟨entry, hentry, heq⟩ := List.mem_map.mp hcopied
      obtain ⟨hpath, hnode⟩ := Prod.mk.inj heq
      refine ⟨entry, hentry, ?_⟩
      rw [List.append_cancel_left hpath, hnode]
  · rintro ⟨entry, hentry, heq⟩
    obtain ⟨rfl, rfl⟩ := Prod.mk.inj heq
    exact ⟨(valid_path_parts (h.valid hentry)).1, _,
      List.mem_append_right _ (List.mem_map.mpr ⟨entry, hentry, rfl⟩), rfl⟩

/-- **The gate on a copy.** A package that is copied and made read-only passes the gate
unless it has an entry where the registered cache is. -/
theorem copied_passes_iff (h : StoredObject objects package object) (hplace : FreshPlace tree place) :
    verify_package_source_ignoring_lake_cache package place
        (make_generation_read_only (copied_tree object tree place package)) = .ok () ↔
      ∀ entry ∈ package.entries, entry.path ∉ derived_cache package := by
  have hlisting : (copied_tree object tree place package).Listing :=
    done_listing h hplace (List.append_nil _)
  have hdirectory : (make_generation_read_only (copied_tree object tree place package)).is_dir place := by
    rcases hplace.directory with hroot | hget
    · exact Or.inl hroot
    · refine Or.inr ((get_eq_some (read_only_listing hlisting)).mpr (mem_read_only.mpr ?_))
      exact ⟨.Directory, List.mem_append_left _ ((get_eq_some hplace.listing).mp hget), rfl⟩
  have hpackage : PackageDirectory package place
      (make_generation_read_only (copied_tree object tree place package)) :=
    ⟨read_only_listing hlisting, hdirectory, object, h.listing, h.planned⟩
  rw [gate_accepts_iff hpackage]
  constructor
  · rintro ⟨hsource, -, -⟩ entry hentry hcache
    obtain ⟨listed, -, hpath, htext⟩ := hsource.complete entry hentry
    rw [← htext] at hcache
    exact hpath.2 hcache
  · intro hfree
    have htexts : ∀ listed ∈ (make_generation_read_only
        (copied_tree object tree place package)).below place, ∃ entry ∈ package.entries,
        portable_relative_path listed.1 = entry.path ∧ ¬reserved listed ∧
          listed.2 = read_only_node (copied_node object entry) := by
      intro listed hlisted
      obtain ⟨entry, hentry, rfl⟩ := (mem_below_copied h hplace).mp hlisted
      have htext := (valid_path_parts (h.valid hentry)).2.2.1
      refine ⟨entry, hentry, htext, ?_, rfl⟩
      show ¬(split '/' (portable_relative_path (split '/' entry.path))).any reserved_name = true
      rw [htext, valid_not_reserved (h.valid hentry)]
      exact Bool.false_ne_true
    refine ⟨⟨?_, ?_, ?_⟩, ?_, ?_⟩
    · intro listed hlisted hpath
      obtain ⟨entry, hentry, htext, -, hnode⟩ := htexts listed hlisted
      obtain ⟨node, hmem, hsource⟩ := h.source hentry
      have hget := (get_eq_some h.listing).mpr hmem
      refine ⟨entry, hentry, ?_⟩
      rw [htext, hnode]
      unfold copied_node
      rw [hget]
      cases node with
      | Directory =>
        refine ⟨_, rfl, ?_⟩
        rw [← Option.some.inj hsource]
      | File mode bytes =>
        refine ⟨_, rfl, ?_⟩
        rw [← Option.some.inj hsource]
        rfl
      | Symlink => cases hsource
      | Special => cases hsource
    · intro entry hentry
      have hlisted := (mem_below_copied h hplace).mpr ⟨entry, hentry, rfl⟩
      have htext := (valid_path_parts (h.valid hentry)).2.2.1
      refine ⟨_, hlisted, ⟨?_, ?_⟩, htext⟩
      · obtain ⟨-, -, -, hno, -⟩ := htexts _ hlisted
        exact hno
      · show portable_relative_path (split '/' entry.path) ∉ derived_cache package
        rw [htext]
        exact hfree entry hentry
    · intro listed hlisted _ hcache
      obtain ⟨entry, hentry, htext, -, -⟩ := htexts listed hlisted
      rw [htext] at hcache
      exact absurd hcache (hfree entry hentry)
    · intro listed hlisted hreserved
      obtain ⟨entry, hentry, -, hno, -⟩ := htexts listed hlisted
      exact absurd hreserved hno
    · intro listed hlisted hcache
      obtain ⟨entry, hentry, htext, -, -⟩ := htexts listed hlisted
      rw [htext] at hcache
      exact absurd hcache (hfree entry hentry)

end Copy

/-! ## The place of a package -/

/-- What `ensure_private_descendant` adds are directories on the way to the target. -/
theorem ensure_private_descendant_adds {tree created : Tree} {base rest : List Str}
    (hlisting : tree.Listing) (hbase : tree.is_dir base)
    (hnames : ∀ name ∈ rest, name ≠ [] ∧ name ≠ ['.'] ∧ '/' ∉ name)
    (h : ensure_private_descendant tree base rest = .ok created) :
    created.Listing ∧ created.is_dir (base ++ rest) ∧
      ∀ listed ∈ created, listed ∈ tree ∨ listed.1 <+: base ++ rest := by
  induction rest generalizing tree base with
  | nil =>
    rw [← Except.ok.inj h, List.append_nil]
    exact ⟨hlisting, hbase, fun listed hlisted => Or.inl hlisted⟩
  | cons name rest ih =>
    have hcons : base ++ name :: rest = (base ++ [name]) ++ rest := by
      rw [List.append_assoc, List.singleton_append]
    have hrest : ∀ name ∈ rest, name ≠ [] ∧ name ≠ ['.'] ∧ '/' ∉ name :=
      fun other hother => hnames other (List.mem_cons_of_mem _ hother)
    unfold ensure_private_descendant at h
    by_cases hdots : name = ['.', '.']
    · rw [if_pos hdots] at h
      cases h
    rw [if_neg hdots] at h
    rw [hcons]
    cases hget : tree.get (base ++ [name]) with
    | some node =>
      rw [hget] at h
      cases node with
      | Directory => exact ih hlisting (Or.inr hget) hrest h
      | File => cases h
      | Symlink => cases h
      | Special => cases h
    | none =>
      rw [hget] at h
      have hnew : ∀ node, (base ++ [name], node) ∉ tree := get_eq_none.mp hget
      have hadded : (tree ++ [(base ++ [name], Node.Directory)]).Listing := by
        refine ⟨?_, ?_, ?_⟩
        · intro listed hlisted
          rcases List.mem_append.mp hlisted with hold | hadded
          · exact hlisting.names listed hold
          · rw [List.mem_singleton.mp hadded]
            refine ⟨by simp, fun part hpart => ?_⟩
            rcases List.mem_append.mp hpart with hpart | hpart
            · -- a name on the way is listed already
              rcases hbase with hroot | hdirectory
              · rw [hroot] at hpart
                exact absurd hpart List.not_mem_nil
              · exact (hlisting.names _ ((get_eq_some hlisting).mp hdirectory)).2 part hpart
            · obtain ⟨hnil, hdot, hslash⟩ := hnames name List.mem_cons_self
              rw [List.mem_singleton.mp hpart]
              unfold file_name
              simp [hnil, hdot, hdots, hslash]
        · rw [List.map_append, List.nodup_append]
          refine ⟨hlisting.paths, List.nodup_singleton _, fun path hpath other hother heq => ?_⟩
          obtain ⟨listed, hlisted, rfl⟩ := List.mem_map.mp hpath
          rw [List.map_singleton, List.mem_singleton] at hother
          rw [hother] at heq
          have hpath : listed.1 = base ++ [name] := heq
          rw [← hpath] at hnew
          exact hnew listed.2 hlisted
        · intro listed hlisted hparent
          rcases List.mem_append.mp hlisted with hold | hadded
          · exact List.mem_append_left _ (hlisting.parents listed hold hparent)
          · rw [List.mem_singleton.mp hadded, List.dropLast_concat] at hparent ⊢
            exact List.mem_append_left _ ((get_eq_some hlisting).mp (hbase.resolve_left hparent))
      have hdirectory : (tree ++ [(base ++ [name], Node.Directory)]).is_dir (base ++ [name]) :=
        Or.inr ((get_eq_some hadded).mpr (List.mem_append_right _ List.mem_cons_self))
      obtain ⟨hcreated, hplace, hall⟩ := ih hadded hdirectory hrest h
      refine ⟨hcreated, hplace, fun listed hlisted => ?_⟩
      rcases hall listed hlisted with hbefore | hway
      · rcases List.mem_append.mp hbefore with hold | hnext
        · exact Or.inl hold
        · rw [List.mem_singleton.mp hnext]
          exact Or.inr (List.prefix_append _ _)
      · exact Or.inr hway

/-- A place that nothing lies below stays so when its directory is made. -/
theorem fresh_place {g : LeanBunGenerationV1} {package : GenerationPackageV1} {tree created : Tree}
    {place : List Str} (hplace : package_place g package = .ok place) (hlisting : tree.Listing)
    (hfresh : tree.below place = []) (h : ensure_private_descendant tree [] place = .ok created) :
    FreshPlace created place := by
  have hnames : ∀ name ∈ place, name ≠ [] ∧ name ≠ ['.'] ∧ '/' ∉ name := by
    intro name hname
    unfold package_place relative_components at hplace
    split at hplace
    · cases hplace
    · next components hcomponents =>
      rw [← Except.ok.inj hplace] at hname
      obtain ⟨front, hfront, -⟩ := List.dropPrefix?_eq_some_iff.mp hcomponents
      have hmem : name ∈ path_components package.final_path := by
        rw [hfront]
        exact List.mem_append_right _ hname
      obtain ⟨hpart, hkept⟩ := List.mem_filter.mp hmem
      rw [Bool.and_eq_true, decide_eq_true_iff, decide_eq_true_iff] at hkept
      exact ⟨hkept.1, hkept.2, not_mem_of_mem_split hpart⟩
  obtain ⟨hcreated, hdirectory, hall⟩ :=
    ensure_private_descendant_adds hlisting (Or.inl rfl) hnames h
  rw [List.nil_append] at hdirectory hall
  refine ⟨hcreated, hdirectory, List.eq_nil_iff_forall_not_mem.mpr fun ⟨relative, node⟩ hlisted => ?_⟩
  obtain ⟨hne, hmem⟩ := mem_below.mp hlisted
  rcases hall _ hmem with hold | hway
  · have hbelow := mem_below.mpr ⟨hne, hold⟩
    rw [hfresh] at hbelow
    exact absurd hbelow List.not_mem_nil
  · -- below the place is not on the way to it
    have hlength := hway.length_le
    have hpos := List.length_pos_iff.mpr hne
    rw [List.length_append] at hlength
    omega

/-! ## The run -/

/-- `verify_package_source_ignoring_lake_cache` on the directory of a generation. -/
def verify_package (g : LeanBunGenerationV1) (package : GenerationPackageV1) (s : ProjectState) :
    GenerationResult Unit :=
  match (s.generations g.transaction_id).bind GenerationDirectory.packages with
  | none => .error ⟨.Io, "M35 I/O failed"⟩
  | some tree => do
    let place ← package_place g package
    verify_package_source_ignoring_lake_cache package place tree

/-- A package is copied, the packages are made read-only, and the package is verified. -/
def copy_and_verify (objects : ObjectTrees) (g : LeanBunGenerationV1) (package : GenerationPackageV1) :
    ManagerProg Unit := do
  materialize_package objects g package
  change_packages g fun tree => (.ok (), make_generation_read_only tree)
  Prog.read .Read (verify_package g package)

section Run

variable {objects : ObjectTrees} {g : LeanBunGenerationV1} {package : GenerationPackageV1}
  {object tree created : Tree} {place : List Str} {s : ProjectState}
  {files : GenerationFile → Option Str}

theorem run_change_packages {f : Tree → GenerationResult Unit × Tree}
    (hdirectory : s.generations g.transaction_id = some ⟨files, some tree⟩) :
    (change_packages g f).run s =
      ((f tree).1, s.set_generation g.transaction_id ⟨files, some (f tree).2⟩) := by
  unfold change_packages change_directory
  rw [Prog.run_atomic, hdirectory]

theorem set_generation_self (t : ExecutionId) (directory : GenerationDirectory) :
    (s.set_generation t directory).generations t = some directory := Function.update_self ..

theorem set_generation_twice (t : ExecutionId) (directory next : GenerationDirectory) :
    (s.set_generation t directory).set_generation t next = s.set_generation t next := by
  unfold ProjectState.set_generation
  rw [Function.update_idem]

/-- **The loop** over the entries that are still to do. -/
theorem run_entries (h : StoredObject objects package object) (hplace : FreshPlace created place)
    {done todo : List NormalizedTreeEntryV1} (hsplit : done ++ todo = package.entries) :
    (Prog.for_each (fun entry => change_packages g (materialize_entry objects package place entry))
        todo).run
      (s.set_generation g.transaction_id ⟨files, some (created ++ done.map (copied object place))⟩) =
      (.ok (), s.set_generation g.transaction_id
        ⟨files, some (copied_tree object created place package)⟩) := by
  induction todo generalizing done with
  | nil =>
    rw [List.append_nil] at hsplit
    rw [hsplit]
    rfl
  | cons next todo ih =>
    have hstep := run_change_packages (f := materialize_entry objects package place next)
      (set_generation_self (s := s) g.transaction_id
        ⟨files, some (created ++ done.map (copied object place))⟩)
    rw [next_entry h hplace hsplit, set_generation_twice] at hstep
    show (change_packages g (materialize_entry objects package place next) >>= fun _ =>
      Prog.for_each (fun entry => change_packages g (materialize_entry objects package place entry))
        todo).run _ = _
    rw [Prog.run_bind_ok hstep]
    refine ih ?_
    rw [List.append_assoc, List.singleton_append]
    exact hsplit

/-- The copy of a whole package. -/
theorem run_materialize_package (h : StoredObject objects package object)
    (hplace : package_place g package = .ok place) (hfresh : FreshPlace created place)
    (hcreated : ensure_private_descendant tree [] place = .ok created)
    (hdirectory : s.generations g.transaction_id = some ⟨files, some tree⟩) :
    (materialize_package objects g package).run s =
      (.ok (), s.set_generation g.transaction_id
        ⟨files, some (copied_tree object created place package)⟩) := by
  unfold materialize_package
  rw [hplace, h.reverify]
  have hloop : (Prog.for_each (fun entry => change_packages g
      (materialize_entry objects package place entry)) package.entries).run
      (s.set_generation g.transaction_id
        ⟨files, some (created ++ ([] : List NormalizedTreeEntryV1).map (copied object place))⟩) = _ :=
    run_entries h hfresh (List.nil_append package.entries)
  rw [List.map_nil, List.append_nil] at hloop
  refine (Prog.run_bind_ok (b := ()) ?_).trans hloop
  rw [run_change_packages hdirectory, hcreated]

/-- What the copy and its verification come to. -/
theorem run_copy_and_verify (h : StoredObject objects package object)
    (hplace : package_place g package = .ok place) (hfresh : FreshPlace created place)
    (hcreated : ensure_private_descendant tree [] place = .ok created)
    (hdirectory : s.generations g.transaction_id = some ⟨files, some tree⟩) :
    ((copy_and_verify objects g package).run s).1 =
      verify_package_source_ignoring_lake_cache package place
        (make_generation_read_only (copied_tree object created place package)) := by
  have hmodes := run_change_packages
    (f := fun tree => (.ok (), make_generation_read_only tree)) (set_generation_self (s := s)
      g.transaction_id ⟨files, some (copied_tree object created place package)⟩)
  rw [set_generation_twice] at hmodes
  unfold copy_and_verify
  rw [Prog.run_bind_ok (run_materialize_package h hplace hfresh hcreated hdirectory),
    Prog.run_bind_ok hmodes]
  show ((Prog.atomic _ _).run _).1 = _
  rw [Prog.run_atomic]
  unfold verify_package
  rw [set_generation_self]
  dsimp only [Option.bind]
  rw [hplace]
  rfl

/-- **Copy and verification.** The package of a stored object, copied to a place where
nothing lies yet and made read-only, passes the verification of the generation exactly
when it has no entry under the path of the registered cache. -/
theorem copy_verifies_iff (h : StoredObject objects package object)
    (hplace : package_place g package = .ok place) (hlisting : tree.Listing)
    (hfresh : tree.below place = [])
    (hcreated : ensure_private_descendant tree [] place = .ok created)
    (hdirectory : s.generations g.transaction_id = some ⟨files, some tree⟩) :
    ((copy_and_verify objects g package).run s).1 = .ok () ↔
      ∀ entry ∈ package.entries, entry.path ∉ derived_cache package := by
  have hnew := fresh_place hplace hlisting hfresh hcreated
  rw [run_copy_and_verify h hplace hnew hcreated hdirectory]
  exact copied_passes_iff h hnew

end Run

/-! ## A registered provider -/

/-- The object of a package that ships the registered cache in its source. -/
def widget_object : Tree :=
  [(["widget".toList], .Directory),
    (["widget".toList, "package-lock.json.hash".toList], .File 0o644 [])]

/-- A package with this object. -/
def widget_package (scope name : Str) : GenerationPackageV1 :=
  ⟨scope, name, package_path "/g".toList scope name, digest [],
    tree_digest (((plan_directory (some widget_object) .registered_provider).toOption).getD []),
    "/store/tree".toList,
    ((plan_directory (some widget_object) .registered_provider).toOption).getD []⟩

/-- The store that holds it. -/
def widget_objects : ObjectTrees where
  tree_sha256 := fun _ => (normalized_directory_tree_sha256_v1 (some widget_object)
    .registered_provider).mapError LeanStoreError.message
  file := fun path =>
    if path = "/store/tree/widget/package-lock.json.hash".toList then some [] else none

/-- The generation of this package. -/
def widget_generation (scope name : Str)
    (hkeys : Lock.valid_atom scope Lock.MAX_NAME_BYTES true = true ∧
      Lock.valid_atom name Lock.MAX_NAME_BYTES false = true) : LeanBunGenerationV1 :=
  { first_generation with
    generation_root := "/g".toList
    packages := [widget_package scope name]
    generation_root_valid := by decide
    count_bounded := (by decide : 1 ≤ MAX_GENERATION_PACKAGES_V1)
    paths_canonical := fun package hpackage => by
      rw [List.mem_singleton.mp hpackage]
      rfl
    keys_valid := fun package hpackage => by
      rw [List.mem_singleton.mp hpackage]
      exact hkeys }

/-- Its own package, and the provider that the registered cache belongs to. -/
def solo_generation : LeanBunGenerationV1 := widget_generation [] "solo".toList (by decide)

def provider : GenerationPackageV1 :=
  widget_package "leanprover-community".toList "proofwidgets".toList

def provider_generation : LeanBunGenerationV1 :=
  widget_generation "leanprover-community".toList "proofwidgets".toList (by decide)

/-- The state of the project before the packages of a generation are copied. -/
def no_packages (g : LeanBunGenerationV1) : ProjectState :=
  ProjectState.initial.set_generation g.transaction_id ⟨fun _ => none, some []⟩

theorem widget_listing : widget_object.Listing := ⟨by decide, by decide, by decide⟩

theorem empty_listing : Tree.Listing [] := ⟨by decide, by decide, by decide⟩

theorem widget_stored (scope name : Str) :
    StoredObject widget_objects (widget_package scope name) widget_object where
  listing := widget_listing
  planned := by
    obtain ⟨entries, hplan⟩ : ∃ entries,
        plan_directory (some widget_object) .registered_provider = .ok entries :=
      exists_of_isOk (by decide)
    unfold widget_package
    rw [hplan]
    rfl
  digested := rfl
  reverified := rfl
  files := by
    intro relative mode bytes hmem
    have hfile : (relative, Node.File mode bytes) =
        (["widget".toList, "package-lock.json.hash".toList], .File 0o644 []) := by
      rcases List.mem_cons.mp hmem with heq | hmem
      · cases (Prod.mk.inj heq).2
      · exact List.mem_singleton.mp hmem
    obtain ⟨rfl, hnode⟩ := Prod.mk.inj hfile
    cases hnode
    have hpath : path_join "/store/tree".toList (portable_relative_path
        ["widget".toList, "package-lock.json.hash".toList]) =
          "/store/tree/widget/package-lock.json.hash".toList := by decide
    show widget_objects.file (path_join "/store/tree".toList _) = _
    rw [hpath]
    unfold widget_objects
    dsimp only
    exact if_pos rfl

theorem widget_entry (scope name : Str) : ∃ entry ∈ (widget_package scope name).entries,
    entry.path = "widget/package-lock.json.hash".toList := by
  have hmem : (["widget".toList, "package-lock.json.hash".toList], Node.File 0o644 []) ∈
      widget_object := List.mem_cons_of_mem _ List.mem_cons_self
  refine ⟨file_entry (portable_relative_path ["widget".toList, "package-lock.json.hash".toList])
    0o644 [], ?_, by decide⟩
  refine (mem_plan widget_listing registered_limits.1 (widget_stored scope name).planned).mpr
    ⟨_, hmem, ?_⟩
  exact planned_entry_eq_some.mpr ⟨by decide, List.not_mem_nil, rfl⟩

/-- The theorem at a package of another name. -/
theorem copy_verifies_solo :
    ((copy_and_verify widget_objects solo_generation (widget_package [] "solo".toList)).run
      (no_packages solo_generation)).1 = .ok () := by
  have hplace : package_place solo_generation (widget_package [] "solo".toList) =
      .ok ["solo".toList] := by
    have hcomponents : relative_components (path_join "/g".toList "packages".toList)
        (package_path "/g".toList [] "solo".toList) = some ["solo".toList] := by decide
    unfold package_place solo_generation widget_generation widget_package
    dsimp only
    rw [hcomponents]
  have hcreated : ensure_private_descendant [] [] ["solo".toList] =
      .ok [(["solo".toList], .Directory)] := rfl
  have hdirectory : (no_packages solo_generation).generations solo_generation.transaction_id =
      some ⟨fun _ => none, some []⟩ := set_generation_self ..
  refine (copy_verifies_iff (widget_stored _ _) hplace empty_listing rfl hcreated
    hdirectory).mpr fun entry _ => ?_
  have hcache : derived_cache (widget_package [] "solo".toList) = [] := rfl
  rw [hcache]
  exact List.not_mem_nil

/-- **A provider that ships its cache.** The copy of the package has the file, and the
verification of the generation misses it. -/
theorem shipped_cache_missed :
    ((copy_and_verify widget_objects provider_generation provider).run
      (no_packages provider_generation)).1 ≠ .ok () ∧
    ¬∀ (objects : ObjectTrees) (g : LeanBunGenerationV1) (package : GenerationPackageV1)
      (object tree created : Tree) (place : List Str) (s : ProjectState)
      (files : GenerationFile → Option Str), StoredObject objects package object →
      package_place g package = .ok place → tree.Listing → tree.below place = [] →
      ensure_private_descendant tree [] place = .ok created →
      s.generations g.transaction_id = some ⟨files, some tree⟩ →
        ((copy_and_verify objects g package).run s).1 = .ok () := by
  have hstored : StoredObject widget_objects provider widget_object := widget_stored _ _
  have hplace : package_place provider_generation provider =
      .ok ["leanprover-community".toList, "proofwidgets".toList] := by
    have hcomponents : relative_components (path_join "/g".toList "packages".toList)
        (package_path "/g".toList "leanprover-community".toList "proofwidgets".toList) =
          some ["leanprover-community".toList, "proofwidgets".toList] := by decide
    unfold package_place provider_generation widget_generation provider widget_package
    dsimp only
    rw [hcomponents]
  have hcreated : ensure_private_descendant [] []
      ["leanprover-community".toList, "proofwidgets".toList] =
        .ok [(["leanprover-community".toList], .Directory),
          (["leanprover-community".toList, "proofwidgets".toList], .Directory)] := rfl
  have hdirectory : (no_packages provider_generation).generations
      provider_generation.transaction_id = some ⟨fun _ => none, some []⟩ := set_generation_self ..
  have hfresh := fresh_place hplace empty_listing rfl hcreated
  have hmissed : ((copy_and_verify widget_objects provider_generation provider).run
      (no_packages provider_generation)).1 ≠ .ok () := by
    rw [run_copy_and_verify hstored hplace hfresh hcreated hdirectory, Ne,
      copied_passes_iff hstored hfresh]
    intro hall
    obtain ⟨entry, hentry, hpath⟩ :=
      widget_entry "leanprover-community".toList "proofwidgets".toList
    refine hall entry hentry ?_
    rw [hpath]
    decide
  exact ⟨hmissed, fun hall => hmissed (hall _ _ _ _ _ _ _ _ _ hstored hplace empty_listing rfl
    hcreated hdirectory)⟩

end LeanBun.Generation
