/-
Package trees inside a generation.

A tree is the listing of the packages directory. A package is copied into it entry
by entry from its store object, and verified against its entries; what Lake caches
inside a package is passed over. Which of several differences is reported depends
on the order of a directory listing, so the readers here report the first one in
the list. A symbolic link in the place of the directory of a package is left out.
-/
import LeanBun.Generation.Model
import LeanBun.Lib.Check
import LeanBun.Store.Directory

set_option autoImplicit false

namespace LeanBun.Generation

open LeanBun.Lib LeanBun.Core LeanBun.Store

/-! ## Trees -/

/-- The store objects as they are on disk during a publication: the digest that
`normalized_directory_tree_sha256_v1` computes of a tree, and the regular files. -/
structure ObjectTrees where
  tree_sha256 : PathBuf → Except String Sha256
  file : PathBuf → Option (List UInt8)

/-- `strip_prefix` on paths. -/
def relative_components (base target : PathBuf) : Option (List Str) :=
  (path_components target).dropPrefix? (path_components base)

/-- `components` of a relative path, when all are normal. -/
def normal_components (path : Str) : Option (List Str) :=
  if path.head? = some '/' ∨ (split '/' path).head? = some ['.'] ∨
    (split '/' path).contains ['.', '.'] = true then none
  else some (path_components path)

/-- `ensure_private_descendant` below a directory that exists. -/
def ensure_private_descendant (tree : Tree) (base : List Str) : List Str → GenerationResult Tree
  | [] => .ok tree
  | name :: rest =>
    if name = ['.', '.'] then .error (boundary "directory target is not normalized")
    else match tree.get (base ++ [name]) with
      | some .Directory => ensure_private_descendant tree (base ++ [name]) rest
      | some _ => .error (boundary "directory boundary contains symlink or nondirectory")
      | none =>
        ensure_private_descendant (tree ++ [(base ++ [name], .Directory)]) (base ++ [name]) rest

/-! ## Copying a package -/

/-- The place of a package below the packages directory. -/
def package_place (generation : LeanBunGenerationV1) (package : GenerationPackageV1) :
    GenerationResult (List Str) :=
  match relative_components (path_join generation.generation_root "packages".toList)
      package.final_path with
  | none => .error (boundary "directory target is outside its established base")
  | some place => .ok place

/-- The check at the start of `materialize_package`. -/
def reverify_object (objects : ObjectTrees) (package : GenerationPackageV1) :
    GenerationResult Unit :=
  match objects.tree_sha256 package.object_tree_path with
  | .error error => .error (drift ("M34 object cannot be reverified: " ++ error))
  | .ok source_digest =>
    if source_digest = package.source_tree_sha256 then .ok ()
    else .error (drift "M34 object tree changed before generation materialization")

/-- The mode of a file that is created and not yet given its own. -/
def NEW_FILE_MODE : ℕ := 0o644

/-- The loop body of `materialize_package`: the error, if any, and the tree that
is left behind. -/
def materialize_entry (objects : ObjectTrees) (package : GenerationPackageV1) (place : List Str)
    (entry : NormalizedTreeEntryV1) (tree : Tree) : GenerationResult Unit × Tree :=
  match normal_components entry.path with
  | none => (.error (boundary "package entry is not safely relative"), tree)
  | some relative =>
    match entry.kind with
    | .Directory =>
      match ensure_private_descendant tree place relative with
      | .error error => (.error error, tree)
      | .ok tree => (.ok (), tree)
    | .File =>
      match ensure_private_descendant tree place relative.dropLast with
      | .error error => (.error error, tree)
      | .ok tree =>
        match objects.file (path_join package.object_tree_path entry.path) with
        | none => (.error (drift "M34 object entry is not a regular file"), tree)
        | some bytes =>
          if (tree.get (place ++ relative)).isSome then (.error ⟨.Io, "M35 I/O failed"⟩, tree)
          else
            let copied := bytes.take (entry.size + 1)
            if copied.length = entry.size then
              (.ok (), tree ++ [(place ++ relative, .File entry.mode copied)])
            else (.error (drift "M34 object file changed while copying"),
              tree ++ [(place ++ relative, .File NEW_FILE_MODE copied)])

/-- What `make_generation_read_only` does to a file. -/
def read_only_node : Node → Node
  | .File mode bytes => .File (if mode &&& 0o111 ≠ 0 then 0o555 else 0o444) bytes
  | node => node

/-- `make_generation_read_only`, of the packages: the modes of directories are not
read again. -/
def make_generation_read_only (tree : Tree) : Tree :=
  tree.map fun entry => (entry.1, read_only_node entry.2)

/-! ## Verifying packages -/

/-- The registered derived cache of one package. -/
def registered_derived_cache (package : GenerationPackageV1) (relative : Str) : Bool :=
  decide (package.key_scope = "leanprover-community".toList) &&
    decide (package.key_name = "proofwidgets".toList) &&
    decide (relative = "widget/package-lock.json.hash".toList)

/-- What the loop of `verify_package_source_ignoring_lake_cache` says about one
path below the package. -/
def verify_source_entry (package : GenerationPackageV1) (relative : List Str) (node : Node) :
    GenerationResult Unit :=
  let text := portable_relative_path relative
  if relative.head? = some ".lake".toList then
    if relative.length = 1 ∧ node ≠ .Directory then
      .error (drift "package .lake cache is not a directory")
    else .ok ()
  else if registered_derived_cache package text then
    match node with
    | .File _ bytes =>
      if bytes.length ≤ 64 * 1024 then .ok ()
      else .error (drift "registered derived cache is invalid")
    | _ => .error (drift "registered derived cache is invalid")
  else match package.entries.reverse.find? fun entry => decide (entry.path = text) with
    | none => .error (drift "generation package source contains an extra path")
    | some expected =>
      match expected.kind, node with
      | .Directory, .Directory => .ok ()
      | .File, .File _ bytes =>
        if bytes.length ≠ expected.size then
          .error (drift "generation package source file size changed")
        else if some (digest bytes) ≠ expected.sha256 then
          .error (drift "generation package source file digest changed")
        else .ok ()
      | _, _ => .error (drift "generation package source entry kind changed")

/-- `verify_package_source_ignoring_lake_cache`. -/
def verify_package_source_ignoring_lake_cache (package : GenerationPackageV1) (place : List Str)
    (tree : Tree) : GenerationResult Unit := do
  let _ ← ensure (tree.is_dir place) (⟨.Io, "M35 I/O failed"⟩ : LeanGenerationError)
  let below := tree.below place
  let _ ← below.mapM fun entry => verify_source_entry package entry.1 entry.2
  let observed := (below.map fun entry => entry.1).filterMap fun relative =>
    let text := portable_relative_path relative
    if relative.head? = some ".lake".toList ∨ registered_derived_cache package text = true then none
    else some text
  let _ ← ensure (∀ entry ∈ package.entries, entry.path ∈ observed)
    (drift "generation package source contains a missing path")
  return ()

/-- `validate_package_namespace`. -/
def validate_package_namespace (places : List (List Str)) (tree : Tree) : GenerationResult Unit := do
  let _ ← ensure (∀ entry ∈ tree, (places.any fun place => place.isPrefixOf entry.1) = true ∨
      ((places.any fun place => entry.1.isPrefixOf place) = true ∧ entry.2 = .Directory))
    (drift "generation package namespace contains an extra path")
  return ()

end LeanBun.Generation
