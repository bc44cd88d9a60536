/-
The search roots of a Lake workspace.

Before a build, Lake is asked for its environment, and the search roots that it names are
compared with the final paths of the packages. The comparison cuts the text of `LEAN_PATH`
at colons and looks at the pieces that end like the library directory of a package. So it
decides rightly where these pieces are the search roots again and every search root of a
package ends that way; a root that does not is not looked at, and a path with a colon or a
line break is not found.
-/
import LeanBun.Build.Supervised
import LeanBun.Lib.UnixPath

set_option autoImplicit false

namespace LeanBun.Build.WorkspacePaths

open LeanBun.Lib LeanBun.Lib.UnixPath LeanBun.Build.Supervised

/-! ## The check -/

/-- `.lake/build/lib/lean`. -/
def library_suffix : List Str := components ".lake/build/lib/lean".toList

/-- The package of an entry, if the entry ends like a library directory and the package is
not the working directory. -/
def observed_package (cwd entry : Str) : Option (List Str) :=
  let path := components entry
  if ends_with path library_suffix then
    match parent path >>= parent >>= parent >>= parent with
    | some package => if package ≠ components cwd then some package else none
    | none => none
  else none

/-- `BTreeSet` equality of paths. -/
def same_paths (observed expected : List (List Str)) : Bool :=
  observed.all (fun path => decide (path ∈ expected)) &&
    expected.all fun path => decide (path ∈ observed)

/-- The value behind the first `LEAN_PATH=` of an environment. -/
def find_lean_path (output : Str) : Option Str :=
  (lines output).findSome? ( strip_prefix "LEAN_PATH=".toList)

/-- The end of `verify_lake_workspace_paths_v1`, when Lake has been run. The sets that
differ are left out of the message. -/
def verify_lake_workspace_paths_v1 (cwd : Str) (executed : Except BuildError BuildResultV1)
    (expected_package_paths : List Str) : Except BuildError Unit := do
  let result ← executed
  match from_utf8 result.stdout with
  | none => .error ⟨.PathDrift, "Lake environment output is not UTF-8"⟩
  | some output =>
    match find_lean_path output with
    | none => .error ⟨.PathDrift, "Lake did not report LEAN_PATH"⟩
    | some lean_path =>
      let observed := (split ':' lean_path).filterMap (observed_package cwd)
      if same_paths observed (expected_package_paths.map components) = false then
        .error ⟨.PathDrift, "Lake actual package paths differ from Bun decisions"⟩
      else .ok ()

/-! ## What Lake prints -/

/-- An environment as Lake prints it: the lines in front, the search roots behind
`LEAN_PATH=`, and whatever follows. Among the search roots are that of the root package and
that of the Lean sysroot. -/
structure LakeEnvironment where
  before : List Str
  roots : List Str
  after : Str
  own_root : Str
  sysroot_root : Str
  before_lines : ∀ line ∈ before, '\n' ∉ line ∧ ¬"LEAN_PATH=".toList <+: line

/-- The search roots, joined with colons. -/
def LakeEnvironment.joined (env : LakeEnvironment) : Str := List.intercalate [':'] env.roots

/-- The text that is printed. -/
def LakeEnvironment.text (env : LakeEnvironment) : Str :=
  unlines env.before ++ ("LEAN_PATH=".toList ++ env.joined ++ '\n' :: env.after)

/-- The search roots other than those of the root package and of the sysroot. -/
def LakeEnvironment.others (env : LakeEnvironment) : List Str :=
  env.roots.filter fun root => decide (components root ≠ components env.own_root) &&
    decide (components root ≠ components env.sysroot_root)

/-- **A right workspace**: the other search roots are the library directories of exactly the
expected packages. -/
def Right (env : LakeEnvironment) (expected : List Str) : Prop :=
  (∀ root ∈ env.others, ∃ package ∈ expected,
    components root = components package ++ library_suffix) ∧
  ∀ package ∈ expected, ∃ root ∈ env.others,
    components root = components package ++ library_suffix

/-! ## Lines and pieces -/

/-- The characters of a text before its first line break. -/
def first_line (s : Str) : Str := s.takeWhile fun c => decide (c ≠ '\n')

/-- The first line of the value. -/
def LakeEnvironment.line (env : LakeEnvironment) : Str :=
  strip_cr (first_line env.joined)

/-- The pieces into which colons cut it. -/
def LakeEnvironment.pieces (env : LakeEnvironment) : List Str := split ':' env.line

theorem lines_append {a : Str} (b : Str) (ha : '\n' ∉ a) :
    lines (a ++ '\n' :: b) = strip_cr a :: lines b := by
  have hsplit : split '\n' (a ++ '\n' :: b) = a :: split '\n' b :=
    List.splitOn_append_cons_self_of_not_mem ha b
  have hne : split '\n' b ≠ [] := List.splitOn_ne_nil '\n' b
  unfold lines
  dsimp only
  rw [hsplit, List.dropLast_cons_of_ne_nil hne, List.map_cons, List.getLast?_cons_of_ne_nil hne]
  rfl

theorem lines_append_unlines (ls : List Str) (b : Str) (h : ∀ line ∈ ls, '\n' ∉ line) :
    lines (unlines ls ++ b) = ls.map strip_cr ++ lines b := by
  induction ls with
  | nil => rfl
  | cons line ls ih =>
    have hrest : ∀ other ∈ ls, '\n' ∉ other := fun other hother => h other (List.mem_cons_of_mem _ hother)
    have htext : unlines (line :: ls) ++ b = line ++ '\n' :: (unlines ls ++ b) := by
      simp [unlines, List.flatMap_cons]
    rw [htext, lines_append _ (h line List.mem_cons_self), ih hrest]
    rfl

theorem strip_cr_append {a b : Str} (hcr : '\r' ∉ a) :
    strip_cr (a ++ b) = a ++ strip_cr b := by
  by_cases hb : b = []
  · have hlast : a.getLast? ≠ some '\r' := fun h => hcr (List.mem_of_getLast? h)
    rw [hb, List.append_nil]
    unfold strip_cr
    rw [if_neg hlast, if_neg (by simp), List.append_nil]
  · unfold strip_cr
    rw [List.getLast?_append_of_ne_nil a hb]
    by_cases hlast : b.getLast? = some '\r'
    · rw [if_pos hlast, if_pos hlast, List.dropLast_append_of_ne_nil hb]
    · rw [if_neg hlast, if_neg hlast]

theorem strip_cr_front (line : Str) : strip_cr line <+: line := by
  unfold strip_cr
  split
  · exact List.dropLast_prefix line
  · exact List.prefix_rfl

theorem not_mem_first_line (s : Str) : '\n' ∉ first_line s := by
  intro h
  have hall := List.all_takeWhile (p := fun c => decide (c ≠ '\n')) (l := s)
  exact absurd (List.all_eq_true.mp hall '\n' h) (by decide)

/-- A text is printed up to its first line break. -/
theorem exists_first_line (s after : Str) :
    ∃ rest, s ++ '\n' :: after = first_line s ++ '\n' :: rest := by
  induction s with
  | nil => exact ⟨after, rfl⟩
  | cons c s ih =>
    by_cases hc : c = '\n'
    · refine ⟨s ++ '\n' :: after, ?_⟩
      unfold first_line
      rw [List.takeWhile_cons_of_neg (by simp [hc]), hc]
      rfl
    · obtain ⟨rest, hrest⟩ := ih
      refine ⟨rest, ?_⟩
      unfold first_line at hrest ⊢
      rw [List.takeWhile_cons_of_pos (by simp [hc]), List.cons_append, List.cons_append, hrest]

/-- **What is found** in the printed text is the first line of the value. -/
theorem find_lean_path_text (env : LakeEnvironment) : find_lean_path env.text = some env.line := by
  have hbefore : (env.before.map strip_cr).findSome? ( strip_prefix "LEAN_PATH=".toList) = none := by
    rw [List.findSome?_eq_none_iff]
    intro line hline
    obtain ⟨printed, hprinted, rfl⟩ := List.mem_map.mp hline
    cases hfound : strip_prefix "LEAN_PATH=".toList (strip_cr printed) with
    | none => rfl
    | some value =>
      have hstart : "LEAN_PATH=".toList <+: strip_cr printed :=
        ⟨value, (strip_prefix_eq_some hfound).symm⟩
      exact absurd (hstart.trans (strip_cr_front printed)) (env.before_lines printed hprinted).2
  obtain ⟨rest, hrest⟩ := exists_first_line env.joined env.after
  have hline : '\n' ∉ "LEAN_PATH=".toList ++ first_line env.joined := by
    rw [List.mem_append, not_or]
    exact ⟨by decide, not_mem_first_line env.joined⟩
  have htext : env.text = unlines env.before ++
      (("LEAN_PATH=".toList ++ first_line env.joined) ++ '\n' :: rest) := by
    unfold LakeEnvironment.text
    rw [List.append_assoc, hrest, ← List.append_assoc "LEAN_PATH=".toList]
  unfold find_lean_path
  rw [htext, lines_append_unlines _ _ fun line h => (env.before_lines line h).1,
    lines_append rest hline, List.findSome?_append, hbefore, Option.none_or, List.findSome?_cons,
    strip_cr_append (by decide), strip_prefix_append]
  rfl

/-! ## What is observed -/

/-- The parent of the parent of the parent of the parent. -/
theorem parents_append (path : List Str) :
    (parent (path ++ library_suffix) >>= parent >>= parent >>= parent) = some path := by
  have hsuffix : library_suffix =
      [".lake".toList, "build".toList, "lib".toList, "lean".toList] := by decide
  have hassoc : path ++ library_suffix =
      path ++ [".lake".toList] ++ ["build".toList] ++ ["lib".toList] ++ ["lean".toList] := by
    rw [hsuffix]
    simp
  simp only [Option.bind_eq_bind]
  rw [hassoc, parent_append _ (by decide), Option.bind_some, parent_append _ (by decide),
    Option.bind_some, parent_append _ (by decide), Option.bind_some, parent_append _ (by decide)]

theorem observed_package_eq_some {cwd entry : Str} {package : List Str} :
    observed_package cwd entry = some package ↔
      components entry = package ++ library_suffix ∧ package ≠ components cwd := by
  unfold observed_package ends_with
  dsimp only
  by_cases hends : library_suffix.isSuffixOf (components entry) = true
  · obtain ⟨path, hpath⟩ := List.isSuffixOf_iff_suffix.mp hends
    rw [if_pos hends, ← hpath, parents_append]
    by_cases hcwd : path = components cwd
    · simp [hcwd, eq_comm]
    · simp only [if_pos hcwd, Option.some.injEq, List.append_cancel_right_eq]
      constructor
      · rintro rfl
        exact ⟨rfl, hcwd⟩
      · exact fun h => h.1
  · rw [if_neg hends]
    refine iff_of_false (by simp) fun h => hends ?_
    rw [h.1]
    exact List.isSuffixOf_iff_suffix.mpr (List.suffix_append package library_suffix)

/-- The paths that the check observes. -/
def LakeEnvironment.observed (env : LakeEnvironment) (cwd : Str) : List (List Str) :=
  env.pieces.filterMap (observed_package cwd)

theorem mem_observed {env : LakeEnvironment} {cwd : Str} {package : List Str} :
    package ∈ env.observed cwd ↔ package ≠ components cwd ∧
      ∃ piece ∈ env.pieces, components piece = package ++ library_suffix := by
  unfold LakeEnvironment.observed
  rw [List.mem_filterMap]
  simp only [observed_package_eq_some]
  tauto

theorem same_paths_iff {observed expected : List (List Str)} :
    same_paths observed expected = true ↔ ∀ path, path ∈ observed ↔ path ∈ expected := by
  unfold same_paths
  simp only [Bool.and_eq_true, List.all_eq_true, decide_eq_true_eq]
  exact ⟨fun h path => ⟨h.1 path, h.2 path⟩, fun h => ⟨fun path => (h path).mp, fun path => (h path).mpr⟩⟩

/-- What Lake returns when it prints the environment. -/
def LakeEnvironment.result (env : LakeEnvironment) (printed : BuildResultV1) : BuildResultV1 :=
  { printed with stdout := as_bytes env.text }

/-- **The check accepts** the paths that it observes. -/
theorem verify_eq_ok {cwd : Str} {env : LakeEnvironment} {printed : BuildResultV1}
    {expected : List Str} :
    verify_lake_workspace_paths_v1 cwd (.ok (env.result printed)) expected = .ok () ↔
      ∀ path, path ∈ env.observed cwd ↔ path ∈ expected.map components := by
  rw [← same_paths_iff]
  show (match from_utf8 (as_bytes env.text) with
    | none => _
    | some output => _) = _ ↔ _
  rw [from_utf8_as_bytes]
  dsimp only
  rw [find_lean_path_text]
  show (if same_paths (env.observed cwd) (expected.map components) = false then _ else _) = _ ↔ _
  cases same_paths (env.observed cwd) (expected.map components) with
  | false => simp
  | true => simp

/-! ## When the check decides rightly -/

/-- **The line can be read back**: every other search root ends like the library directory of a
package that is not the working directory, colons cut it out of the line, and they cut out
nothing else of this kind. -/
structure ReadsBack (cwd : Str) (env : LakeEnvironment) : Prop where
  ends : ∀ root ∈ env.others, ends_with (components root) library_suffix = true
  apart : ∀ root ∈ env.others, components root ≠ components cwd ++ library_suffix
  cut : ∀ root ∈ env.others, ∃ piece ∈ env.pieces, components piece = components root
  alien : ∀ piece ∈ env.pieces, ends_with (components piece) library_suffix = true →
    components piece ≠ components cwd ++ library_suffix →
    ∃ root ∈ env.others, components root = components piece

theorem ends_with_iff {path : List Str} : ends_with path library_suffix = true ↔
    ∃ package, path = package ++ library_suffix := by
  unfold ends_with
  rw [List.isSuffixOf_iff_suffix]
  exact ⟨fun ⟨package, h⟩ => ⟨package, h.symm⟩, fun ⟨package, h⟩ => ⟨package, h.symm⟩⟩

theorem library_suffix_head : library_suffix.head? = some ".lake".toList := by decide

/-- **The check is right** about every set of paths exactly if the line can be read back. -/
theorem reads_back_iff {cwd : Str} {env : LakeEnvironment} {printed : BuildResultV1} :
    (∀ expected, verify_lake_workspace_paths_v1 cwd (.ok (env.result printed)) expected = .ok () ↔
      Right env expected) ↔ ReadsBack cwd env := by
  simp only [verify_eq_ok]
  constructor
  · intro hall
    -- the observed paths, as texts
    have htexts : ∃ expected : List Str, expected.map components = env.observed cwd := by
      have hone : ∀ package ∈ env.observed cwd, ∃ text, components text = package := by
        intro package hpackage
        obtain ⟨-, piece, -, hpiece⟩ := mem_observed.mp hpackage
        exact exists_text hpiece (by rw [library_suffix_head]; decide) (by rw [library_suffix_head]; decide)
      generalize env.observed cwd = observed at hone
      induction observed with
      | nil => exact ⟨[], rfl⟩
      | cons package observed ih =>
        obtain ⟨text, htext⟩ := hone package List.mem_cons_self
        obtain ⟨texts, htexts⟩ := ih fun other hother => hone other (List.mem_cons_of_mem _ hother)
        exact ⟨text :: texts, by rw [List.map_cons, htext, htexts]⟩
    obtain ⟨expected, hexpected⟩ := htexts
    obtain ⟨hroots, hpackages⟩ := (hall expected).mp fun path => by rw [hexpected]
    have hobserved : ∀ package ∈ expected, components package ∈ env.observed cwd := by
      intro package hpackage
      rw [← hexpected]
      exact List.mem_map_of_mem hpackage
    refine ⟨fun root hroot => ?_, fun root hroot => ?_, fun root hroot => ?_,
      fun piece hpiece hends hcwd => ?_⟩
    · obtain ⟨package, -, h⟩ := hroots root hroot
      exact ends_with_iff.mpr ⟨_, h⟩
    · obtain ⟨package, hpackage, h⟩ := hroots root hroot
      rw [h]
      intro heq
      exact (mem_observed.mp (hobserved package hpackage)).1 (List.append_cancel_right heq)
    · obtain ⟨package, hpackage, h⟩ := hroots root hroot
      obtain ⟨-, piece, hpiece, hsame⟩ := mem_observed.mp (hobserved package hpackage)
      exact ⟨piece, hpiece, hsame.trans h.symm⟩
    · obtain ⟨package, hpackage⟩ := ends_with_iff.mp hends
      have hmem : package ∈ env.observed cwd := by
        refine mem_observed.mpr ⟨fun heq => hcwd ?_, piece, hpiece, hpackage⟩
        rw [hpackage, heq]
      rw [← hexpected] at hmem
      obtain ⟨text, htext, rfl⟩ := List.mem_map.mp hmem
      obtain ⟨root, hroot, h⟩ := hpackages text htext
      exact ⟨root, hroot, h.trans hpackage.symm⟩
  · intro hreads expected
    -- the observed packages are those of the other roots
    have hobserved (package : List Str) : package ∈ env.observed cwd ↔
        ∃ root ∈ env.others, components root = package ++ library_suffix := by
      rw [mem_observed]
      constructor
      · rintro ⟨hcwd, piece, hpiece, hpackage⟩
        obtain ⟨root, hroot, h⟩ := hreads.alien piece hpiece (ends_with_iff.mpr ⟨_, hpackage⟩)
          (fun heq => hcwd (List.append_cancel_right (hpackage.symm.trans heq)))
        exact ⟨root, hroot, h.trans hpackage⟩
      · rintro ⟨root, hroot, hpackage⟩
        refine ⟨fun heq => hreads.apart root hroot (by rw [hpackage, heq]), ?_⟩
        obtain ⟨piece, hpiece, h⟩ := hreads.cut root hroot
        exact ⟨piece, hpiece, h.trans hpackage⟩
    simp only [hobserved, List.mem_map]
    constructor
    · intro hsame
      constructor
      · intro root hroot
        obtain ⟨package, hpackage⟩ := ends_with_iff.mp (hreads.ends root hroot)
        obtain ⟨text, htext, rfl⟩ := (hsame package).mp ⟨root, hroot, hpackage⟩
        exact ⟨text, htext, hpackage⟩
      · intro package hpackage
        exact (hsame (components package)).mpr ⟨package, hpackage, rfl⟩
    · rintro ⟨hroots, hpackages⟩ path
      constructor
      · rintro ⟨root, hroot, hpath⟩
        obtain ⟨package, hpackage, h⟩ := hroots root hroot
        exact ⟨package, hpackage, List.append_cancel_right (h.symm.trans hpath)⟩
      · rintro ⟨package, hpackage, rfl⟩
        exact hpackages package hpackage

/-! ## Usual workspaces -/

/-- Search roots without colons and line ends; the root package has its library directory
where it is expected, and the sysroot has it elsewhere. -/
structure Plain (cwd : Str) (env : LakeEnvironment) : Prop where
  roots : ∀ root ∈ env.roots, ':' ∉ root ∧ '\n' ∉ root ∧ '\r' ∉ root
  own : components env.own_root = components cwd ++ library_suffix
  sysroot : ends_with (components env.sysroot_root) library_suffix = false

theorem first_line_eq {s : Str} (h : '\n' ∉ s) : first_line s = s := by
  unfold first_line
  have hall : ∀ c ∈ s, decide (c ≠ '\n') = true := fun c hc => decide_eq_true fun heq => h (heq ▸ hc)
  have htake : (s ++ []).takeWhile (fun c => decide (c ≠ '\n')) =
      s ++ [].takeWhile (fun c => decide (c ≠ '\n')) := List.takeWhile_append_of_pos hall
  rwa [List.append_nil, List.takeWhile_nil, List.append_nil] at htake

/-- Plain search roots are the pieces of the line. -/
theorem Plain.pieces {cwd : Str} {env : LakeEnvironment} (h : Plain cwd env)
    (hne : env.roots ≠ []) : env.pieces = env.roots := by
  have hsplit : split ':' env.joined = env.roots :=
    List.splitOn_intercalate ':' (fun root hroot => (h.roots root hroot).1) hne
  have hjoined {c : Char} (hc : c ≠ ':') (hroots : ∀ root ∈ env.roots, c ∉ root) :
      c ∉ env.joined := by
    rw [← mem_split_iff hc, hsplit]
    rintro ⟨root, hroot, hin⟩
    exact hroots root hroot hin
  have hline : env.line = env.joined := by
    have hbreak : '\n' ∉ env.joined :=
      hjoined (by decide) fun root hroot => (h.roots root hroot).2.1
    have hcr : '\r' ∉ env.joined :=
      hjoined (by decide) fun root hroot => (h.roots root hroot).2.2
    unfold LakeEnvironment.line
    rw [first_line_eq hbreak]
    unfold strip_cr
    rw [if_neg fun hlast => hcr (List.mem_of_getLast? hlast)]
  unfold LakeEnvironment.pieces
  rw [hline]
  exact hsplit

theorem mem_others {env : LakeEnvironment} {root : Str} : root ∈ env.others ↔ root ∈ env.roots ∧
    components root ≠ components env.own_root ∧ components root ≠ components env.sysroot_root := by
  unfold LakeEnvironment.others
  rw [List.mem_filter, Bool.and_eq_true, decide_eq_true_iff, decide_eq_true_iff]

/-- **Plain lines are read back** if every other search root ends like a library directory. -/
theorem Plain.reads_back_iff {cwd : Str} {env : LakeEnvironment} (h : Plain cwd env) :
    ReadsBack cwd env ↔
      ∀ root ∈ env.others, ends_with (components root) library_suffix = true := by
  refine ⟨ReadsBack.ends, fun hends => ⟨hends, fun root hroot => ?_, fun root hroot => ?_,
    fun piece hpiece hlibrary hcwd => ?_⟩⟩
  · rw [← h.own]
    exact (mem_others.mp hroot).2.1
  · have hmem := (mem_others.mp hroot).1
    rw [h.pieces (List.ne_nil_of_mem hmem)]
    exact ⟨root, hmem, rfl⟩
  · by_cases hne : env.roots = []
    · have hpieces : env.pieces = [[]] := by
        unfold LakeEnvironment.pieces LakeEnvironment.line LakeEnvironment.joined
        rw [hne]
        rfl
      rw [hpieces, List.mem_singleton] at hpiece
      rw [hpiece] at hlibrary
      exact absurd hlibrary (by decide)
    · rw [h.pieces hne] at hpiece
      refine ⟨piece, mem_others.mpr ⟨hpiece, by rwa [h.own], fun heq => ?_⟩, rfl⟩
      rw [heq, h.sysroot] at hlibrary
      exact absurd hlibrary (by decide)

/-- **A colon or a line break** in another search root is lost. -/
theorem not_reads_back {cwd : Str} {env : LakeEnvironment} {root : Str} (hroot : root ∈ env.others)
    (hmem : ':' ∈ root ∨ '\n' ∈ root) : ¬ReadsBack cwd env := by
  intro h
  obtain ⟨piece, hpiece, hsame⟩ := h.cut root hroot
  have hback {c : Char} (hslash : c ≠ '/') (hdot : c ≠ '.') (hc : c ∈ root) : c ∈ piece := by
    rw [← mem_components_iff hslash hdot, hsame, mem_components_iff hslash hdot]
    exact hc
  rcases hmem with hcolon | hbreak
  · exact not_mem_of_mem_split hpiece (hback (by decide) (by decide) hcolon)
  · have hin := hback (by decide) (by decide) hbreak
    have hline : '\n' ∈ env.line := (mem_split_iff (by decide)).mp ⟨piece, hpiece, hin⟩
    exact not_mem_first_line _ ((strip_cr_front _).subset hline)

/-- **Lake's search roots.** The check decides rightly about every set of paths exactly if the
printed line can be read back. In a plain workspace this is so exactly if every other search
root ends like the library directory of a package: a root that does not is let through. With a
colon or a line break in another search root it is not so. -/
theorem workspace_paths_checked_iff (cwd : Str) (env : LakeEnvironment) (printed : BuildResultV1) :
    ((∀ expected, verify_lake_workspace_paths_v1 cwd (.ok (env.result printed)) expected = .ok () ↔
      Right env expected) ↔ ReadsBack cwd env) ∧
    (Plain cwd env → (ReadsBack cwd env ↔
      ∀ root ∈ env.others, ends_with (components root) library_suffix = true)) ∧
    ∀ root ∈ env.others, ':' ∈ root ∨ '\n' ∈ root → ¬ReadsBack cwd env :=
  ⟨reads_back_iff, Plain.reads_back_iff, fun _ => not_reads_back⟩

/-! ## Two workspaces -/

/-- The environment of a root package in `/w`, with the sysroot `/t`. -/
def sample_environment (roots : List Str) : LakeEnvironment :=
  ⟨[], "/w/.lake/build/lib/lean".toList :: roots ++ ["/t/lib/lean".toList], [],
    "/w/.lake/build/lib/lean".toList, "/t/lib/lean".toList, by simp⟩

/-- The package `a` and a search root elsewhere. -/
def alien_environment : LakeEnvironment :=
  sample_environment ["/g/packages/a/.lake/build/lib/lean".toList, "/e/out/lib/lean".toList]

/-- The package `a:b` alone. -/
def colon_environment : LakeEnvironment :=
  sample_environment ["/g/packages/a:b/.lake/build/lib/lean".toList]

/-- What Lake has returned besides its output. -/
def sample_printed : BuildResultV1 := ⟨0, [], [], .Exit, 7, false⟩

/-- **Both ways wrong.** A search root that does not end like a library directory is let
through, and a right workspace with a colon in the name of a package is refused. -/
theorem workspace_paths_misjudged :
    (verify_lake_workspace_paths_v1 "/w".toList (.ok (alien_environment.result sample_printed))
        ["/g/packages/a".toList] = .ok () ∧
      ¬Right alien_environment ["/g/packages/a".toList]) ∧
    verify_lake_workspace_paths_v1 "/w".toList (.ok (colon_environment.result sample_printed))
        ["/g/packages/a:b".toList] ≠ .ok () ∧
      Right colon_environment ["/g/packages/a:b".toList] := by
  have halien : Plain "/w".toList alien_environment := by
    refine ⟨?_, ?_, ?_⟩
    · decide
    · decide
    · decide
  refine ⟨⟨?_, ?_⟩, ?_, ?_⟩
  · have hobserved : alien_environment.roots.filterMap (observed_package "/w".toList) =
        ["/g/packages/a".toList].map components := by decide
    rw [verify_eq_ok]
    unfold LakeEnvironment.observed
    rw [halien.pieces (by decide), hobserved]
    exact fun _ => Iff.rfl
  · rintro ⟨hroots, -⟩
    obtain ⟨package, hpackage, hroot⟩ := hroots "/e/out/lib/lean".toList (by decide)
    rw [List.mem_singleton.mp hpackage] at hroot
    exact absurd hroot (by decide)
  · rw [ne_eq, verify_eq_ok]
    intro hsame
    obtain ⟨-, piece, hpiece, heq⟩ := mem_observed.mp
      ((hsame (components "/g/packages/a:b".toList)).mpr List.mem_cons_self)
    have hcolon : ':' ∈ piece := by
      rw [← mem_components_iff (by decide) (by decide), heq]
      exact ⟨"a:b".toList, by decide, by decide⟩
    exact not_mem_of_mem_split hpiece hcolon
  · unfold Right
    decide

end LeanBun.Build.WorkspacePaths
