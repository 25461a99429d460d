import Glyph8.Toml.Register

/-!
# TOML documents

The statements of a document build a tree of tables. The builder keeps, by path, which tables were
made only because a longer key needed them, and which keys were last given an array: such keys may
be given again. It also registers every key in the order in which it is written.

A key may be given once, but a table may be entered several times on the way to longer keys. So what
has been made is marked: a table that was made in passing may still get a header of its own, once.
Headers that are repeated with double brackets make one more table each, and a path goes through the
last one.

Values are evaluated in the builder, since a table that is written on one line enters its keys as it
is read. A statement that contradicts earlier ones makes the whole document fail. The order and the
case of keys are kept, as both matter to those who read the document.

Documents are compared by their structure, so equality of documents can be decided.
-/

namespace Glyph8.Toml

/-- A value in a document. The tables that repeated headers make are kept apart from arrays. -/
inductive Value where
  | text (t : Text)
  | integer (n : Int)
  | boolean (b : Bool)
  | real
  | moment (offset : Int)
  | array
  | table (entries : List (Text × Value))
  | tables (elements : List (List (Text × Value)))

namespace Value

mutual

/-- Whether two values are the same. -/
def same : Value → Value → Bool
  | .text s, .text t => s == t
  | .integer m, .integer n => m == n
  | .boolean b, .boolean c => b == c
  | .real, .real => true
  | .moment m, .moment n => m == n
  | .array, .array => true
  | .table es, .table fs => sameEntries es fs
  | .tables xs, .tables ys => sameElements xs ys
  | _, _ => false

/-- Whether two tables have the same entries in the same order. -/
def sameEntries : List (Text × Value) → List (Text × Value) → Bool
  | [], [] => true
  | (key, x) :: es, (key', y) :: fs => key == key' && x.same y && sameEntries es fs
  | _, _ => false

/-- Whether two lists of tables are the same. -/
def sameElements : List (List (Text × Value)) → List (List (Text × Value)) → Bool
  | [], [] => true
  | x :: xs, y :: ys => sameEntries x y && sameElements xs ys
  | _, _ => false

end

mutual

/-- Values are compared by their structure. -/
theorem same_iff : ∀ a b : Value, a.same b = true ↔ a = b
  | .text _, b | .integer _, b | .boolean _, b | .real, b | .moment _, b | .array, b => by
    cases b <;> simp [same]
  | .table es, b => by cases b <;> simp [same, sameEntries_iff es]
  | .tables xs, b => by cases b <;> simp [same, sameElements_iff xs]

theorem sameEntries_iff : ∀ es fs : List (Text × Value), sameEntries es fs = true ↔ es = fs
  | [], fs => by cases fs <;> simp [sameEntries]
  | (key, x) :: es, fs => by
    cases fs <;> simp [sameEntries, same_iff x, sameEntries_iff es, Prod.ext_iff]

theorem sameElements_iff :
    ∀ xs ys : List (List (Text × Value)), sameElements xs ys = true ↔ xs = ys
  | [], ys => by cases ys <;> simp [sameElements]
  | x :: xs, ys => by cases ys <;> simp [sameElements, sameEntries_iff x, sameElements_iff xs]

end

instance : DecidableEq Value := fun a b => decidable_of_iff _ (same_iff a b)

end Value

/-- The entries of a table, in the order of their first definition. -/
abbrev Table := List (Text × Value)

namespace Table

/-- The value of a key. -/
def find? (t : Table) (key : Text) : Option Value := t.lookup key

/-- The table with a key set. -/
def set : Table → Text → Value → Table
  | [], key, v => [(key, v)]
  | (k, old) :: rest, key, v =>
    if k = key then (k, v) :: rest else (k, old) :: set rest key v

end Table

/-- The table that a path goes through at a value: the table itself, or the last of several. -/
def Value.inner? : Value → Option Table
  | .table entries => some entries
  | .tables elements => elements.getLast?
  | _ => none

/-- A value with the table that a path goes through replaced. -/
def Value.withInner (v : Value) (t : Table) : Value :=
  match v with
  | .tables elements => .tables (elements.dropLast ++ [t])
  | _ => .table t

namespace Table

/-- The table at a path. -/
def at? (t : Table) : KeyPath → Option Table
  | [] => some t
  | k :: rest => do
    let v ← t.find? k
    let inner ← v.inner?
    at? inner rest

/-- The table with the table at a path replaced. -/
def replaceAt (t : Table) (path : KeyPath) (new : Table) : Table :=
  match path with
  | [] => new
  | k :: rest =>
    match t.find? k with
    | none => t
    | some v =>
      match v.inner? with
      | none => t
      | some inner => t.set k (v.withInner (replaceAt inner rest new))

/-- Sets the value at a path in tables without headers of their own; every part of the path but the
last has to be a table or absent. -/
def put? (t : Table) : KeyPath → Value → Option Table
  | [], _ => none
  | [k], v => some (t.set k v)
  | k :: rest, v =>
    match t.find? k with
    | none => (put? [] rest v).map fun inner => t.set k (.table inner)
    | some (.table inner) => (put? inner rest v).map fun inner => t.set k (.table inner)
    | some _ => none

end Table

/-- A table that assignments go to: its path, and its place in the register of keys. -/
structure Context where
  path : KeyPath := []
  place : Place := Register.top

/-- A document while it is built. -/
structure Builder where
  root : Table := []
  /-- The table that assignments go to. -/
  context : Context := {}
  /-- Tables made for the sake of a longer key. -/
  implicit : List KeyPath := []
  /-- Keys last given an array. -/
  arrays : List KeyPath := []
  register : Register := Register.empty
  /-- The places of the keys in the order in which they are written. -/
  keys : List Place := []

namespace Builder

/-- Marks a table as made for the sake of a longer key. -/
def markImplicit (b : Builder) (path : KeyPath) : Builder :=
  { b with implicit := path :: b.implicit }

/-- Marks a table as defined in its own right. -/
def markExplicit (b : Builder) (path : KeyPath) : Builder :=
  { b with implicit := b.implicit.filter (· != path) }

/-- Notes whether `key` is given an array. An empty key stands for the table it is in, and for
itself at the top. -/
def noteKind (b : Builder) (key : Text) (isArray : Bool) : Builder :=
  let path := if key.isEmpty then b.context.path else b.context.path ++ [key]
  let path := if path.isEmpty then [[]] else path
  let others := b.arrays.filter (· != path)
  { b with arrays := if isArray then path :: others else others }

/-- Writes an entry of the table at a path. -/
def store (b : Builder) (path : KeyPath) (t : Table) (key : Text) (v : Value) : Builder :=
  { b with root := b.root.replaceAt path (t.set key v) }

/-- Gives `key` a value in the current table. A key that was last given an array takes the new
value; a table that was made for the sake of a longer key is kept; any other key may not be given
again. -/
def setValue (b : Builder) (key : Text) (v : Value) : Option Builder := do
  let path := b.context.path ++ [key]
  let t ← b.root.at? b.context.path
  if (t.find? key).isNone then return b.store b.context.path t key v
  else if b.arrays.contains path then return (b.markExplicit path).store b.context.path t key v
  else if b.implicit.contains path then return b.markExplicit path
  else none

/-- Makes the tables along a path that are absent. `done` is the path so far. -/
def makeParents (b : Builder) (done : KeyPath) : KeyPath → Option Builder
  | [] => some b
  | k :: rest => do
    let t ← b.root.at? done
    let path := done ++ [k]
    match t.find? k with
    | none => makeParents ((b.markImplicit path).store done t k (.table [])) path rest
    | some v =>
      if v.inner?.isSome then makeParents b path rest else none

/-- Adds one more table to the tables under a key. -/
def addElement (b : Builder) (parents : KeyPath) (key : Text) : Option Builder := do
  let t ← b.root.at? parents
  match t.find? key with
  | none => return b.store parents t key (.tables [[]])
  | some (.tables elements) => return b.store parents t key (.tables (elements ++ [[]]))
  | some _ => none

/-- Enters the table at a path, which is made if need be: as one more of several tables if
`repeated` is set. -/
def enter (b : Builder) (path : KeyPath) (repeated : Bool) : Option Builder := do
  let parents := path.dropLast
  let key ← path.getLast?
  let b ← b.makeParents [] parents
  let b ← if repeated then b.addElement parents key
    else ({ b with context := { path := parents } } : Builder).setValue key (.table [])
  let (place, register) := b.register.addTable path
  return { b with context := ⟨path, place⟩, register }

/-- Puts a name behind the current table in the register. -/
def addStem (b : Builder) (name : Text) : Place × Builder :=
  let (place, register) := b.register.addStem b.context.place name
  (place, { b with register })

/-- Enters the tables that the parts of a dotted key name. -/
def enterParts (b : Builder) : List Text → Option Builder
  | [] => some b
  | part :: rest => do
    let path := b.context.path ++ [part]
    let (_, b) := b.addStem part
    let b ← (b.markImplicit path).enter path false
    enterParts b rest

/-- Notes a key of the current table as written. -/
def noteKey (b : Builder) (key : Text) : Builder :=
  let (place, register) := b.register.addKey b.context.place key
  { b with keys := b.keys ++ [place], register }

/-- Notes the key of a header as written. -/
def noteHeader (b : Builder) (path : KeyPath) : Builder :=
  let (place, register) := b.register.addRow path path.length
  { b with keys := b.keys ++ [place], register }

end Builder

/-- Whether a value is written as an array. -/
def Literal.isArray : Literal → Bool
  | .array _ => true
  | _ => false

mutual

/-- The value of a literal that is given to `key`. Tables written on one line are entered into the
document as they are read; `inArray` says whether the literal is an item of an array. -/
def evaluate (b : Builder) (key : Text) (inArray : Bool) : Literal → Option (Value × Builder)
  | .text t => some (.text t, b)
  | .integer n => some (.integer n, b)
  | .boolean x => some (.boolean x, b)
  | .real => some (.real, b)
  | .moment offset => some (.moment offset, b)
  | .array items => do
    let b ← evaluateItems (b.noteKind key true) key items
    return (.array, b)
  | .table entries => do
    let outer := b.context
    let path := outer.path ++ [key]
    let (place, b) := b.addStem key
    let b ← (b.markImplicit path).enter path inArray
    let (t, b) ← evaluateEntries b ⟨path, place⟩ [] entries
    return (.table t, { b with context := outer })

/-- Reads the items of an array. -/
def evaluateItems (b : Builder) (key : Text) : List Literal → Option Builder
  | [] => some b
  | item :: rest => do
    let (_, b) ← evaluate b key true item
    evaluateItems b key rest

/-- Reads the entries of a table written on one line; those after the first belong to `context`. The
table is also built on its own, as `t`, and dotted keys may go only through tables of it. -/
def evaluateEntries (b : Builder) (context : Context) (t : Table) :
    List (KeyPath × Literal) → Option (Table × Builder)
  | [] => some (t, b)
  | (parts, literal) :: rest => do
    let key ← parts.getLast?
    let b ← b.enterParts parts.dropLast
    let (v, b) ← evaluate (b.noteKey key) key false literal
    let b ← b.setValue key v
    let b := b.noteKind key literal.isArray
    let t ← t.put? parts v
    evaluateEntries { b with context } context t rest

end

namespace Builder

/-- The builder after one more statement. -/
def visit (b : Builder) : Statement → Option Builder
  | .header path => do
    let b ← b.enter path false
    return (b.noteKind [] false).noteHeader path
  | .arrayHeader path => do
    let b ← b.enter path true
    return (b.noteKind [] false).noteHeader path
  | .assign path literal => do
    let key ← path.getLast?
    let inner ← b.enterParts path.dropLast
    let (v, inner) ← evaluate (inner.noteKey key) key false literal
    let inner ← inner.setValue key v
    return { inner.noteKind key literal.isArray with context := b.context }

end Builder

/-- A document: its tables, and its keys in order with the names that they show at the end. -/
structure Document where
  root : Table
  keys : List KeyPath
deriving DecidableEq

/-- The document that statements make, if they do not contradict each other. -/
def Document.ofStatements (ss : List Statement) : Option Document := do
  let b ← ss.foldlM Builder.visit {}
  return { root := b.root, keys := b.keys.map b.register.path }

end Glyph8.Toml
