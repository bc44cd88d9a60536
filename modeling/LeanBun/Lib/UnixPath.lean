/-
Paths by their components.

The standard library compares paths by their components: the root, a single dot at the
front of a relative path, and the names between slashes. Repeated slashes and other single
dots do not count. What is left of a path when names are dropped from its end is the
components of some text again.
-/
import LeanBun.Lib.Text

set_option autoImplicit false

namespace LeanBun.Lib.UnixPath

open LeanBun.Lib

/-! ## Components -/

/-- A part between slashes that counts. -/
def is_name (part : Str) : Bool := decide (part ≠ []) && decide (part ≠ ['.'])

/-- What the front of a path adds: the root, or the dot of a relative path. -/
def front (parts : List Str) (path : Str) : List Str :=
  if path.head? = some '/' then [['/']]
  else if parts.head? = some ['.'] then [['.']]
  else []

/-- `Path::components`. -/
def components (path : Str) : List Str :=
  front (split '/' path) path ++ (split '/' path).filter is_name

/-- `Path::ends_with`. -/
def ends_with (path suffix : List Str) : Bool := suffix.isSuffixOf path

/-- `Path::parent`. -/
def parent (path : List Str) : Option (List Str) :=
  if path = [] ∨ path = [['/']] then none else some path.dropLast

theorem parent_append (path : List Str) {name : Str} (hname : name ≠ ['/']) :
    parent (path ++ [name]) = some path := by
  unfold parent
  rw [if_neg, List.dropLast_concat]
  rintro (h | h)
  · simp at h
  · cases path with
    | nil => exact hname (List.cons.inj h).1
    | cons a path => simp at h

/-! ## Texts of components -/

/-- The text of names: joined with slashes. -/
def join_names (names : List Str) : Str := List.intercalate ['/'] names

/-- A name without a slash, that counts. -/
def Name (name : Str) : Prop := is_name name = true ∧ '/' ∉ name

theorem name_of_split {path part : Str} (h : part ∈ (split '/' path).filter is_name) : Name part := by
  rw [List.mem_filter] at h
  exact ⟨h.2, not_mem_of_mem_split h.1⟩

theorem split_join {names : List Str} (hne : names ≠ []) (h : ∀ name ∈ names, '/' ∉ name) :
    split '/' (join_names names) = names := List.splitOn_intercalate '/' h hne

theorem head_join {name : Str} {names : List Str} (h : Name name) :
    (join_names (name :: names)).head? ≠ some '/' := by
  obtain ⟨hname, hslash⟩ := h
  have hhead : ∃ rest, join_names (name :: names) = name ++ rest := by
    cases names with
    | nil => exact ⟨[], by rw [join_names, List.intercalate_singleton, List.append_nil]⟩
    | cons other names =>
      refine ⟨['/'] ++ join_names (other :: names), ?_⟩
      rw [join_names, List.intercalate_cons_of_ne_nil (by simp), List.append_assoc]
      rfl
  obtain ⟨rest, hrest⟩ := hhead
  rw [hrest]
  cases name with
  | nil => simp [is_name] at hname
  | cons c name =>
    intro heq
    rw [List.cons_append, List.head?_cons, Option.some.injEq] at heq
    exact hslash (heq ▸ List.mem_cons_self)

/-- The components of joined names are the names. -/
theorem components_names {names : List Str} (h : ∀ name ∈ names, Name name) :
    components (join_names names) = names := by
  cases names with
  | nil => rfl
  | cons name names =>
    have hparts : split '/' (join_names (name :: names)) = name :: names :=
      split_join (by simp) fun other hother => (h other hother).2
    unfold components front
    rw [hparts, if_neg (head_join (h name List.mem_cons_self)), if_neg, List.nil_append]
    · exact List.filter_eq_self.mpr fun other hother => (h other hother).1
    · intro heq
      have hname := (h name List.mem_cons_self).1
      rw [List.head?_cons, Option.some.injEq] at heq
      rw [heq] at hname
      exact absurd hname (by decide)

/-- With a slash in front they follow the root. -/
theorem components_absolute {names : List Str} (h : ∀ name ∈ names, Name name) :
    components ('/' :: join_names names) = ['/'] :: names := by
  have hparts : split '/' ('/' :: join_names names) = [] :: split '/' (join_names names) :=
    List.splitOn_append_cons_self_of_not_mem (List.not_mem_nil) _
  unfold components front
  rw [hparts, if_pos (List.head?_cons)]
  show ['/'] :: (split '/' (join_names names)).filter is_name = ['/'] :: names
  congr 1
  cases names with
  | nil => rfl
  | cons name names =>
    rw [split_join (by simp) fun other hother => (h other hother).2]
    exact List.filter_eq_self.mpr fun other hother => (h other hother).1

/-- With a dot in front they follow the dot. -/
theorem components_dotted {names : List Str} (h : ∀ name ∈ names, Name name) :
    components (join_names (['.'] :: names)) = ['.'] :: names := by
  have hparts : split '/' (join_names (['.'] :: names)) = ['.'] :: names := by
    refine split_join (by simp) fun other hother => ?_
    rcases List.mem_cons.mp hother with rfl | hother
    · decide
    · exact (h other hother).2
  have hhead : (join_names (['.'] :: names)).head? = some '.' := by
    cases names with
    | nil => rfl
    | cons name names =>
      rw [join_names, List.intercalate_cons_of_ne_nil (by simp)]
      rfl
  unfold components front
  rw [hparts, hhead, if_neg (by decide), if_pos List.head?_cons]
  show [['.']] ++ (['.'] :: names).filter is_name = ['.'] :: names
  rw [List.filter_cons_of_neg (by decide), List.filter_eq_self.mpr fun other hother => (h other hother).1]
  rfl

/-- **Prefixes of components** are the components of a text. -/
theorem exists_text {path : Str} {start rest : List Str} (h : components path = start ++ rest)
    (hroot : rest.head? ≠ some ['/']) (hdot : rest.head? ≠ some ['.']) :
    ∃ text, components text = start := by
  have hnames : ∀ part ∈ (split '/' path).filter is_name, Name part := fun _ => name_of_split
  unfold components at h
  generalize (split '/' path).filter is_name = names at hnames h
  -- a front that is not the root of `rest` belongs to `start`
  have hmarked (marker : Str) (hmarker : rest.head? ≠ some marker)
      (hall : [marker] ++ names = start ++ rest) :
      ∃ kept, start = marker :: kept ∧ ∀ name ∈ kept, Name name := by
    cases start with
    | nil =>
      rw [List.nil_append] at hall
      rw [← hall] at hmarker
      exact absurd rfl hmarker
    | cons first kept =>
      obtain ⟨hfirst, hrest⟩ := List.cons.inj hall
      refine ⟨kept, by rw [hfirst], fun name hname => hnames name ?_⟩
      have hrest : names = kept ++ rest := hrest
      rw [hrest]
      exact List.mem_append_left rest hname
  unfold front at h
  by_cases habsolute : path.head? = some '/'
  · rw [if_pos habsolute] at h
    obtain ⟨kept, rfl, hkept⟩ := hmarked _ hroot h
    exact ⟨_, components_absolute hkept⟩
  rw [if_neg habsolute] at h
  by_cases hdotted : (split '/' path).head? = some ['.']
  · rw [if_pos hdotted] at h
    obtain ⟨kept, rfl, hkept⟩ := hmarked _ hdot h
    exact ⟨_, components_dotted hkept⟩
  · rw [if_neg hdotted, List.nil_append] at h
    refine ⟨join_names start, components_names fun name hname => hnames name ?_⟩
    rw [h]
    exact List.mem_append_left rest hname

/-! ## Characters -/

/-- The characters of a text, other than the separator, are those of its pieces. -/
theorem mem_split_iff {s : Str} {sep c : Char} (hc : c ≠ sep) :
    (∃ part ∈ split sep s, c ∈ part) ↔ c ∈ s := by
  induction s with
  | nil => simp [split, List.splitOn_nil]
  | cons d s ih =>
    obtain ⟨first, rest, hsplit⟩ := List.exists_cons_of_ne_nil (List.splitOn_ne_nil sep s)
    rw [List.mem_cons, ← ih, split, List.splitOn_cons_eq_if_modifyHead, split, hsplit]
    by_cases hd : d = sep
    · rw [if_pos (by simp [hd]), hd]
      simp [hc]
    · rw [if_neg (by simp [hd]), List.modifyHead_cons]
      simp [or_assoc]

/-- **The characters of a path**, other than slashes and dots, are those of its components. -/
theorem mem_components_iff {path : Str} {c : Char} (hslash : c ≠ '/') (hdot : c ≠ '.') :
    (∃ part ∈ components path, c ∈ part) ↔ c ∈ path := by
  rw [← mem_split_iff hslash]
  constructor
  · rintro ⟨part, hpart, hc⟩
    unfold components at hpart
    rcases List.mem_append.mp hpart with hpart | hpart
    · unfold front at hpart
      split at hpart
      · rw [List.mem_singleton.mp hpart, List.mem_singleton] at hc
        exact absurd hc hslash
      · split at hpart
        · rw [List.mem_singleton.mp hpart, List.mem_singleton] at hc
          exact absurd hc hdot
        · exact absurd hpart List.not_mem_nil
    · exact ⟨part, List.mem_of_mem_filter hpart, hc⟩
  · rintro ⟨part, hpart, hc⟩
    refine ⟨part, List.mem_append_right _ (List.mem_filter.mpr ⟨hpart, ?_⟩), hc⟩
    unfold is_name
    rw [Bool.and_eq_true, decide_eq_true_iff, decide_eq_true_iff]
    refine ⟨fun hnil => ?_, fun hsingle => ?_⟩
    · rw [hnil] at hc
      exact List.not_mem_nil hc
    · rw [hsingle, List.mem_singleton] at hc
      exact hdot hc

end LeanBun.Lib.UnixPath
