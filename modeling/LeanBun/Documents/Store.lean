/-
The stores of write-once documents.

The binding of a project and the attestation of an image are kept in the same way. A call
takes the lock file of its document by exclusive creation, looks for a document at the
target, writes its own under a temporary name and renames it to the target. At the end,
also after a failure, it removes its temporary name and the lock file, if that is its own.

Every step on the file system can fail, which the environment of a call decides. A file has
its bytes under whatever names it has, so that a reader that has opened it keeps it; a call
makes at most one document file, which is known by the call.
-/
import LeanBun.Documents.Json
import LeanBun.Execution.Store
import LeanBun.Lib.Check
import LeanBun.Lib.Interference

set_option autoImplicit false

namespace LeanBun.Documents

open LeanBun.Lib LeanBun.Core LeanBun.Execution

/-! ## Objects -/

/-- The member of an object, `undefined` of anything else. -/
def Json.member (name : JsString) : Json → Option Json
  | .object entries => (entries.find? fun entry => entry.1 = name).map Prod.snd
  | _ => none

/-- A member that is written over another one, or behind all of them. -/
def set_member (name : JsString) (value : Json) (entries : List (JsString × Json)) :
    List (JsString × Json) :=
  if entries.any fun entry => entry.1 = name then
    entries.map fun entry => if entry.1 = name then (name, value) else entry
  else entries ++ [(name, value)]

/-- `{ ...value, name: "", … }`. -/
def Json.blank (names : List JsString) : Json → Json
  | .object entries =>
    .object (names.foldl (fun entries name => set_member name (.string []) entries) entries)
  | _ => .object (names.foldl (fun entries name => set_member name (.string []) entries) [])

/-- An object whose members are the ones of an interface, in any order. -/
structure DocumentObject (fields : List JsString) where
  entries : List (JsString × Json)
  keys : (entries.map Prod.fst).Perm fields

def DocumentObject.value {fields : List JsString} (document : DocumentObject fields) : Json :=
  .object document.entries

/-! ## What a store is of -/

/-- `LoadedDocument`. -/
inductive LoadedDocument where
  | missing (path : JsString)
  | invalid (path message : JsString) (sha256 : Option JsString)
  | valid (path sha256 : JsString) (document : Json)

/-- The paths and the texts of a store, and what its documents are. `timestamps` are the
members that the comparison of two documents leaves out, `belongs` says which documents have
their target here, `refusal` is what their own check says against them, and `valid` can throw
a `TypeError`. -/
structure DocumentStore where
  directory : JsString
  target : JsString
  lock : JsString
  noun : JsString
  lock_noun : JsString
  conflict : JsString
  fields : List JsString
  timestamps : List JsString
  timestamps_fields : ∀ name ∈ timestamps, name ∈ fields
  belongs : Json → Bool
  refusal : Json → Option JsString
  valid : Json → Except JsString Bool
  valid_timestamps : ∀ value, valid value = .ok true →
    ∃ entries, value = .object entries ∧ ∀ name ∈ timestamps, name ∈ entries.map Prod.fst

/-- What the runtime makes of a text: `JSON.parse`, `Date.parse` where it gives a finite
number, the message of a text that is not UTF-8, and that of the `TypeError`, if there is one,
for a value that is taken for a string. -/
structure Runtime where
  json_parse : Str → Except JsString Json
  date_parse : JsString → Option ℤ
  not_utf8 : JsString
  not_a_string : Json → Option JsString

/-- `samePolicy` and `sameEvidence`. -/
def DocumentStore.same (store : DocumentStore) (left right : Json) : Bool :=
  decide (compact (left.blank store.timestamps) = compact (right.blank store.timestamps))

/-- `canonicalBytes`. -/
def canonical_bytes (document : Json) : List UInt8 :=
  as_bytes (document.stringify 2 0 ++ ['\n'])

/-- `hashBytes`. -/
def hash_bytes (bytes : List UInt8) : JsString := js_text (digest bytes).to_string

/-- `TextDecoder` takes a byte order mark off the front. -/
def strip_mark : Str → Str
  | '\uFEFF' :: text => text
  | text => text

/-- What `loadJson` makes of the bytes of the target. -/
def DocumentStore.decode (store : DocumentStore) (runtime : Runtime) (bytes : List UInt8) :
    Except StoreFailure LoadedDocument :=
  match from_utf8 bytes with
  | none => .ok (.invalid store.target runtime.not_utf8 none)
  | some text =>
    match runtime.json_parse (strip_mark text) with
    | .error message => .ok (.invalid store.target message (some (hash_bytes bytes)))
    | .ok value =>
      match store.valid value with
      | .error message => .error (.node .other message)
      | .ok true => .ok (.valid store.target (hash_bytes bytes) value)
      | .ok false => .ok (.invalid store.target (js "document does not match schema version 1")
          (some (hash_bytes bytes)))

/-! ## The files -/

/-- Who has made a file: a call, or somebody before them all. -/
inductive Maker (ι : Type) where
  | before
  | call (i : ι)
deriving DecidableEq

structure StoredBytes where
  bytes : List UInt8
  mode : ℕ
deriving DecidableEq

/-- The directory of a document: who holds the lock file, what the temporary names and the
target are names of, and the files by their makers. -/
structure StoreFiles (ι : Type) where
  directory : Bool
  lock : Option (Maker ι)
  temporary : JsString → Option (Maker ι)
  target : Option (Maker ι)
  files : Maker ι → StoredBytes

variable {ι : Type} [DecidableEq ι]

/-- The state with another content of a file. -/
def StoreFiles.put (s : StoreFiles ι) (maker : Maker ι) (file : StoredBytes) : StoreFiles ι :=
  { s with files := Function.update s.files maker file }

/-- The state with another meaning of a temporary name. -/
def StoreFiles.name (s : StoreFiles ι) (name : JsString) (maker : Option (Maker ι)) :
    StoreFiles ι := { s with temporary := Function.update s.temporary name maker }

abbrev DocumentProg (ι α : Type) := Prog (StoreFiles ι) Unit StoreFailure α

/-! ## Calls -/

/-- The places in the code where the file system is asked. Both loads are told apart. -/
inductive Operation where
  | make_directory
  | inspect_directory
  | sync_root
  | open_lock
  | write_lock
  | sync_lock
  | resolve (again : Bool)
  | open_target (again : Bool)
  | stat_target (again : Bool)
  | read_target (again : Bool)
  | stat_again (again : Bool)
  | open_temporary
  | write_temporary
  | sync_temporary
  | change_mode
  | sync_mode
  | close_temporary
  | rename
  | sync_directory
  | read_mode
  | unlink_temporary
  | unlink_lock
deriving DecidableEq

/-- What surrounds a call: the errors of its file system, apart from those that the files
themselves give, its temporary name, where its writes are cut and how short its reads are. -/
structure Surroundings where
  fault : Operation → Option JsString
  temporary : JsString
  cuts : List ℕ
  short : ℕ → ℕ

/-- A step, if it does not fail. -/
def Surroundings.perform {α : Type} (env : Surroundings) (op : Operation)
    (f : StoreFiles ι → Except StoreFailure α × StoreFiles ι) : DocumentProg ι α :=
  Prog.atomic (fun _ => ()) fun s =>
    match env.fault op with
    | some message => (.error (.node .other message), s)
    | none => f s

/-- A step that only looks. -/
def Surroundings.look {α : Type} (env : Surroundings) (op : Operation)
    (f : StoreFiles ι → Except StoreFailure α) : DocumentProg ι α :=
  env.perform op fun s => (f s, s)

/-- A step that has nothing to do with the files here. -/
def Surroundings.ask (env : Surroundings) (op : Operation) : DocumentProg ι Unit :=
  env.look op fun _ => .ok ()

def no_entry {α : Type} : Except StoreFailure α := .error (.node .ENOENT (js "ENOENT"))

def failed {α : Type} (code : StoreCode) (message : JsString) : DocumentProg ι α :=
  .fail (.store code message)

/-! ## Reading -/

def document_limit : ℕ := 1024 * 1024

def chunk_size : ℕ := 64 * 1024

/-- `handle.read`: at the end nothing, before it at least a byte. -/
def read_part (env : Surroundings) (again : Bool) (file : Maker ι) (position size : ℕ) :
    DocumentProg ι (List UInt8) :=
  env.look (.read_target again) fun s =>
    .ok (((s.files file).bytes.drop position).take (max 1 (min size (env.short position))))

/-- The loop of `readStableText`; it ends after as many rounds as bytes are allowed. -/
def read_loop (env : Surroundings) (again : Bool) (file : Maker ι) :
    ℕ → List UInt8 → DocumentProg ι (List UInt8)
  | 0, total => pure total
  | fuel + 1, total =>
    if document_limit < total.length then pure total
    else do
      let part ← read_part env again file total.length
        (min chunk_size (document_limit + 1 - total.length))
      if part = [] then pure total else read_loop env again file fuel (total ++ part)

/-- `readStableText`, whose stability nobody asks for. -/
def read_stable_text (store : DocumentStore) (env : Surroundings) (again : Bool) :
    DocumentProg ι (List UInt8) := do
  env.look (.resolve again) fun s => if s.target.isSome then .ok () else no_entry
  let file ← env.look (.open_target again) fun s =>
    match s.target with
    | none => no_entry
    | some file => .ok file
  let size ← env.look (.stat_target again) fun s => .ok (s.files file).bytes.length
  let _ ← Prog.lift (ensure (size ≤ document_limit)
    (.node .other (js "evidence exceeds 1048576 bytes: " ++ store.target)))
  let total ← read_loop env again file (document_limit + 2) []
  let _ ← Prog.lift (ensure (total.length ≤ document_limit)
    (.node .other (js "evidence grew beyond 1048576 bytes while reading: " ++ store.target)))
  env.ask (.stat_again again)
  return total

/-- `loadProjectBinding` and `loadImageAttestation`. -/
def load_document (store : DocumentStore) (runtime : Runtime) (env : Surroundings) (again : Bool) :
    DocumentProg ι LoadedDocument := do
  match ← (read_stable_text store env again).attempt with
  | .error (.node .ENOENT _) => return .missing store.target
  | .error e => return .invalid store.target e.message none
  | .ok bytes => Prog.lift (store.decode runtime bytes)

/-! ## Storing -/

/-- The status of a stored document: `bound` or `sealed`, `already-bound` or
`already-sealed`. -/
inductive StoredStatus where
  | stored
  | already
deriving DecidableEq

/-- `StoredBinding` and `StoredAttestation`. -/
structure StoredDocument where
  status : StoredStatus
  path : JsString
  sha256 : JsString
  document : Json

/-- The lock file, which must not be there. -/
def open_lock (store : DocumentStore) (env : Surroundings) (i : ι) : DocumentProg ι Unit :=
  env.perform .open_lock fun s =>
    if s.directory = false then (no_entry, s)
    else if s.lock.isSome then
      (.error (.store .BUSY (store.lock_noun ++ (js " lock already exists: " ++ store.lock))), s)
    else (.ok (), { s with lock := some (.call i) })

/-- The temporary file, whose name must not be there. -/
def open_temporary (env : Surroundings) (i : ι) : DocumentProg ι Unit :=
  env.perform .open_temporary fun s =>
    if (s.temporary env.temporary).isSome then (.error (.node .EEXIST (js "EEXIST")), s)
    else (.ok (), (s.name env.temporary (some (.call i))).put (.call i) ⟨[], 0o600⟩)

/-- The pieces in which bytes are written. -/
def pieces : List ℕ → List UInt8 → List (List UInt8)
  | [], bytes => [bytes]
  | cut :: cuts, bytes => bytes.take cut :: pieces cuts (bytes.drop cut)

/-- One write to the open file. -/
def write_piece (env : Surroundings) (i : ι) (piece : List UInt8) : DocumentProg ι Unit :=
  env.perform .write_temporary fun s =>
    (.ok (), s.put (.call i) { s.files (.call i) with bytes := (s.files (.call i)).bytes ++ piece })

/-- `chmod` of the open file. -/
def change_mode (env : Surroundings) (i : ι) : DocumentProg ι Unit :=
  env.perform .change_mode fun s =>
    (.ok (), s.put (.call i) { s.files (.call i) with mode := 0o444 })

/-- The file under the temporary name gets the name of the target. -/
def rename_temporary (env : Surroundings) : DocumentProg ι Unit :=
  env.perform .rename fun s =>
    match s.temporary env.temporary with
    | none => (no_entry, s)
    | some maker => (.ok (), { s.name env.temporary none with target := some maker })

def unlink_temporary (env : Surroundings) : DocumentProg ι Unit :=
  env.perform .unlink_temporary fun s =>
    if (s.temporary env.temporary).isSome then (.ok (), s.name env.temporary none) else (no_entry, s)

def unlink_lock (env : Surroundings) : DocumentProg ι Unit :=
  env.perform .unlink_lock fun s =>
    if s.lock.isSome then (.ok (), { s with lock := none }) else (no_entry, s)

/-- A step whose failure does not matter. -/
def ignored (p : DocumentProg ι Unit) : DocumentProg ι Unit := do
  let _ ← (p.attempt : DocumentProg ι (Except StoreFailure Unit))
  return ()

/-- The directory above is synchronised if the directory is new. -/
def sync_created (env : Surroundings) (created : Bool) : DocumentProg ι Unit :=
  if created then env.ask .sync_root else pure ()

/-- `prepareBindingDirectory` and `prepareAttestationDirectory`. -/
def prepare_directory (env : Surroundings) : DocumentProg ι Unit := do
  let created ← env.perform .make_directory fun s => (.ok !s.directory, { s with directory := true })
  env.ask .inspect_directory
  sync_created env created

/-- The own document, complete under its temporary name. -/
def stage (env : Surroundings) (i : ι) (document : Json) : DocumentProg ι Unit := do
  open_temporary env i
  Prog.for_each (write_piece env i) (pieces env.cuts (canonical_bytes document))
  env.ask .sync_temporary
  change_mode env i
  env.ask .sync_mode
  env.ask .close_temporary

/-- What is done under the lock up to the rename: a document that is there, or nothing when
the own one has been published. -/
def look_or_publish (store : DocumentStore) (runtime : Runtime) (env : Surroundings) (i : ι)
    (document : Json) : DocumentProg ι (Option StoredDocument) := do
  env.ask .write_lock
  env.ask .sync_lock
  match ← load_document store runtime env false with
  | .valid path sha256 existing =>
    if store.same existing document then return some ⟨.already, path, sha256, existing⟩
    else failed .CONFLICT (store.conflict ++ (js ": " ++ store.target))
  | .invalid _ message _ =>
    failed .CONFLICT (store.noun ++ (js " target exists but is invalid: " ++ (store.target ++
      (js ": " ++ message))))
  | .missing _ => do
    stage env i document
    rename_temporary env
    return none

/-- What is done after the rename. -/
def verify_published (store : DocumentStore) (runtime : Runtime) (env : Surroundings)
    (document : Json) : DocumentProg ι StoredDocument := do
  env.ask .sync_directory
  match ← load_document store runtime env true with
  | .valid path sha256 verified =>
    if sha256 = hash_bytes (canonical_bytes document) ∧ compact verified = compact document then do
      let mode ← env.look .read_mode fun s =>
        match s.target with
        | none => no_entry
        | some file => .ok (s.files file).mode
      let _ ← Prog.lift (ensure (mode = 0o444) (.store .FAILED (js "published " ++ (store.noun ++
        (js " mode is " ++ (js_text (Nat.toDigits 8 mode) ++ (js ", expected 444: " ++
          store.target)))))))
      return ⟨.stored, path, sha256, verified⟩
    else failed .FAILED (js "published " ++ (store.noun ++
      (js " failed immediate readback verification: " ++ store.target)))
  | _ =>
    failed .FAILED (js "published " ++ (store.noun ++
      (js " failed immediate readback verification: " ++ store.target)))

/-- The body under the lock, and whether it has published. -/
def locked (store : DocumentStore) (runtime : Runtime) (env : Surroundings) (i : ι)
    (document : Json) : DocumentProg ι (Bool × Except StoreFailure StoredDocument) := do
  match ← (look_or_publish store runtime env i document).attempt with
  | .error e => return (false, .error e)
  | .ok (some existing) => return (false, .ok existing)
  | .ok none => do
    let verified ← (verify_published store runtime env document).attempt
    return (true, verified)

/-- An error of Node becomes one of the store. -/
def caught : StoreFailure → StoreFailure
  | .node _ message => .store .FAILED message
  | .store code message => .store code message

/-- The temporary name goes unless it has become the target. -/
def discard_temporary (env : Surroundings) (published : Bool) : DocumentProg ι Unit :=
  if published then pure () else ignored (unlink_temporary env)

/-- `storeProjectBinding` and `storeImageAttestation`, after the checks of their argument. -/
def store_document (store : DocumentStore) (runtime : Runtime) (env : Surroundings) (i : ι)
    (document : Json) : DocumentProg ι StoredDocument := do
  prepare_directory env
  match ← (open_lock store env i).attempt with
  | .error e => do
    discard_temporary env false
    Prog.lift (.error (caught e))
  | .ok () => do
    let outcome ← locked store runtime env i document
    discard_temporary env outcome.1
    ignored (unlink_lock env)
    Prog.lift (outcome.2.mapError caught)

/-! ## Calls together -/

/-- A call of a store: its document is one of the store. -/
inductive Call (store : DocumentStore) where
  | store (env : Surroundings) (document : DocumentObject store.fields)
    (belongs : store.belongs document.value = true)
  | load (env : Surroundings)

/-- What a call returns. -/
inductive CallResult where
  | stored (document : StoredDocument)
  | loaded (document : LoadedDocument)

/-- The check of the argument. -/
def DocumentStore.check (store : DocumentStore) (document : Json) : Except StoreFailure Unit :=
  match store.refusal document with
  | some message => .error (.store .FAILED message)
  | none => .ok ()

/-- The program of the call `i`. -/
def Call.program {store : DocumentStore} (runtime : Runtime) (i : ι) :
    Call store → DocumentProg ι CallResult
  | .store env document _ => do
    Prog.lift (store.check document.value)
    let stored ← store_document store runtime env i document.value
    return .stored stored
  | .load env => do
    let loaded ← load_document store runtime env false
    return .loaded loaded

/-- Calls in several processes; a process that ends leaves the files as they are. -/
def call_system {π : Type} (store : DocumentStore) (runtime : Runtime) (calls : ι → Call store)
    (home : ι → π) : System ι π (StoreFiles ι) Unit StoreFailure CallResult where
  program i := (calls i).program runtime i
  home := home
  gone _ s := s

/-- Nothing is there yet of what the calls make. -/
structure Fresh (s : StoreFiles ι) : Prop where
  lock : ∀ i, s.lock ≠ some (.call i)
  temporary : ∀ name i, s.temporary name ≠ some (.call i)
  target : ∀ i, s.target ≠ some (.call i)

end LeanBun.Documents
