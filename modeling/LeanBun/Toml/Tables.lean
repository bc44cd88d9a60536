/-
The tables of TOML 1.0.

A document is a list of statements: a key with its value, the header of a table, the header
of an element of an array of tables. Each alters the table at the root along a path, on which
tables are opened when they are not there and the last element of an array of tables is meant.

Every valid document has the table that TOML gives it. What TOML only refuses (the header of a
table given twice, an inline table or a static array that is added to) is not told apart.
-/
import LeanBun.Lib.Text

set_option autoImplicit false

namespace LeanBun.Toml

open LeanBun.Lib

/-! ## Values -/

/-- A value. Booleans, numbers and dates keep their text. -/
inductive Value
  | text (s : Str)
  | scalar (s : Str)
  | array (values : List Value)
  | table (entries : List (Str × Value))

abbrev Entries := List (Str × Value)

/-- The value of a key. -/
def lookup (key : Str) : Entries → Option Value
  | [] => none
  | (k, v) :: entries => if k = key then some v else lookup key entries

/-- The table with a value under a key. -/
def put (key : Str) (value : Value) : Entries → Entries
  | [] => [(key, value)]
  | (k, v) :: entries => if k = key then (key, value) :: entries else (k, v) :: put key value entries

@[simp] theorem lookup_put_self (key : Str) (value : Value) (entries : Entries) :
    lookup key (put key value entries) = some value := by
  induction entries with
  | nil => simp [put, lookup]
  | cons entry entries ih =>
    by_cases hk : entry.1 = key
    · simp [put, lookup, hk]
    · simp [put, lookup, hk, ih]

theorem lookup_put_of_ne {key other : Str} (h : other ≠ key) (value : Value) (entries : Entries) :
    lookup other (put key value entries) = lookup other entries := by
  induction entries with
  | nil => simp [put, lookup, h.symm]
  | cons entry entries ih =>
    by_cases hk : entry.1 = key
    · simp [put, lookup, hk, h.symm]
    · simp [put, lookup, hk, ih]

/-! ## Altering a table along a path -/

/-- The table that a value opens to, with what makes the value again of the altered table. -/
def open_table : Option Value → Option (Entries × (Entries → Value))
  | none => some ([], .table)
  | some (.table entries) => some (entries, .table)
  | some (.array values) =>
    match values.getLast? with
    | some (.table entries) => some (entries, fun t => .array (values.dropLast ++ [.table t]))
    | _ => none
  | some _ => none

/-- Alters what stands at the end of a path. -/
def alter (f : Option Value → Option Value) : List Str → Entries → Option Entries
  | [], _ => none
  | [key], entries => (f (lookup key entries)).map fun value => put key value entries
  | key :: next :: path, entries => do
    let opened ← open_table (lookup key entries)
    let inner ← alter f (next :: path) opened.1
    return put key (opened.2 inner) entries

/-- A path alters nothing but the value of its first key. -/
theorem lookup_alter_of_ne {f : Option Value → Option Value} {key : Str} {path : List Str}
    {entries altered : Entries} (h : alter f path entries = some altered)
    (hkey : path.head? ≠ some key) : lookup key altered = lookup key entries := by
  match path with
  | [] => simp [alter] at h
  | [first] =>
    obtain ⟨value, -, rfl⟩ := Option.map_eq_some_iff.mp h
    exact lookup_put_of_ne (fun hk => hkey (by rw [hk]; rfl)) value entries
  | first :: next :: rest =>
    obtain ⟨opened, -, h⟩ := Option.bind_eq_some_iff.mp h
    obtain ⟨inner, -, h⟩ := Option.bind_eq_some_iff.mp h
    cases h
    exact lookup_put_of_ne (fun hk => hkey (by rw [hk]; rfl)) _ entries

/-- What stands at the end of a path of one key. -/
theorem lookup_alter_single {f : Option Value → Option Value} {key : Str}
    {entries altered : Entries} (h : alter f [key] entries = some altered) :
    ∃ value, f (lookup key entries) = some value ∧ lookup key altered = some value := by
  obtain ⟨value, hvalue, rfl⟩ := Option.map_eq_some_iff.mp h
  exact ⟨value, hvalue, lookup_put_self key value entries⟩

/-- A longer path alters the last element of an array of tables. -/
theorem lookup_alter_array {f : Option Value → Option Value} {key : Str} {path : List Str}
    {entries altered : Entries} {front : List Value} {last : Entries}
    (harray : lookup key entries = some (.array (front ++ [.table last])))
    (hpath : path ≠ []) (h : alter f (key :: path) entries = some altered) :
    ∃ inner, alter f path last = some inner ∧
      lookup key altered = some (.array (front ++ [.table inner])) := by
  obtain ⟨next, rest, rfl⟩ := List.exists_cons_of_ne_nil hpath
  obtain ⟨opened, hopened, h⟩ := Option.bind_eq_some_iff.mp h
  obtain ⟨inner, hinner, h⟩ := Option.bind_eq_some_iff.mp h
  cases h
  rw [harray] at hopened
  simp only [open_table, List.getLast?_concat, List.dropLast_concat, Option.some.injEq] at hopened
  subst hopened
  exact ⟨inner, hinner, lookup_put_self key _ entries⟩

/-- A longer path goes through no text. -/
theorem alter_text {f : Option Value → Option Value} {key s : Str} {path : List Str}
    {entries : Entries} (htext : lookup key entries = some (.text s)) (hpath : path ≠ []) :
    alter f (key :: path) entries = none := by
  obtain ⟨next, rest, rfl⟩ := List.exists_cons_of_ne_nil hpath
  simp [alter, htext, open_table]

/-! ## Statements -/

/-- A statement of a document. -/
inductive Statement
  | assign (path : List Str) (value : Value)
  | table (path : List Str)
  | array (path : List Str)

/-- A key that is given a value has none before. -/
def fresh (value : Value) : Option Value → Option Value
  | none => some value
  | some _ => none

/-- The header of a table. -/
def as_table : Option Value → Option Value
  | none => some (.table [])
  | some (.table entries) => some (.table entries)
  | some _ => none

/-- The header of a new element of an array of tables. -/
def with_element : Option Value → Option Value
  | none => some (.array [.table []])
  | some (.array values) => some (.array (values ++ [.table []]))
  | some _ => none

/-- What has been read of a document: the table at the root, and the path of the last header. -/
structure State where
  root : Entries
  header : List Str

/-- The meaning of a statement. -/
def Statement.run (state : State) : Statement → Option State
  | .assign path value => do
    let root ← alter (fresh value) (state.header ++ path) state.root
    return { state with root := root }
  | .table path => do
    let root ← alter as_table path state.root
    return ⟨root, path⟩
  | .array path => do
    let root ← alter with_element path state.root
    return ⟨root, path⟩

/-- The table that a list of statements denotes. -/
def denoted (statements : List Statement) : Option Entries :=
  (statements.foldlM Statement.run ⟨[], []⟩).map State.root

/-- The members of an inline table. -/
def inline_table (members : List (List Str × Value)) : Option Entries :=
  denoted (members.map fun member => .assign member.1 member.2)

end LeanBun.Toml
