import Glyph8.Toml.Basic

/-!
# The register of keys

The keys of a document are registered in the order in which they are written, on rows of slots with
one name to a slot. A key is the beginning of a row. A key of a table goes into the slot behind that
table if its row has one, and to a row of its own if not. So the long keys of one table share a
slot, and all of them show the name that was put there last. Rows for one or two names have no slot
to spare: a key of up to three parts always shows the names that it was written with.
-/

namespace Glyph8.Toml

/-- A row of slots: the names on it, and how many slots it has. -/
structure Row where
  names : KeyPath
  room : Nat

/-- The beginning of a row. -/
structure Place where
  row : Nat
  length : Nat

/-- The rows of a register. -/
structure Register where
  rows : List Row

namespace Register

/-- A register with one row, for the top of a document, which has no slots. -/
def empty : Register := ⟨[⟨[], 0⟩]⟩

/-- The top of a document. -/
def top : Place := ⟨0, 0⟩

/-- The names at a place. -/
def path (r : Register) (p : Place) : KeyPath :=
  match r.rows[p.row]? with
  | some row => row.names.take p.length
  | none => []

/-- Whether there is a slot behind a place. -/
def hasSlot (r : Register) (p : Place) : Bool :=
  match r.rows[p.row]? with
  | some row => p.length < row.room
  | none => false

/-- Adds a row with names on it. -/
def addRow (r : Register) (names : KeyPath) (room : Nat) : Place × Register :=
  (⟨r.rows.length, names.length⟩, ⟨r.rows ++ [⟨names, room⟩]⟩)

/-- Puts a name into the slot behind a place. The slots after it keep their names. -/
def fill (r : Register) (p : Place) (name : Text) : Place × Register :=
  (⟨p.row, p.length + 1⟩, ⟨r.rows.modify p.row fun row =>
    { row with names := row.names.take p.length ++ name :: row.names.drop (p.length + 1) }⟩)

/-- Puts a name behind a place: into the slot there, or else on a new row with the given room. -/
def extend (r : Register) (p : Place) (name : Text) (room : Nat) : Place × Register :=
  if r.hasSlot p then r.fill p name else r.addRow (r.path p ++ [name]) room

/-- The sizes of rows with more than 32 slots. -/
def longRooms : List Nat := [
  35, 39, 43, 47, 55, 63, 71, 79, 87, 95, 111, 127, 143, 167, 191, 199, 215, 255, 303, 319, 335,
  383, 407, 423, 431, 511]

/-- The room of the row that a full row of `n` slots is continued on: twice as many slots, or the
next size of a long row. -/
def roomBeyond (n : Nat) : Nat :=
  if n = 0 then 1
  else if n ≤ 16 then 2 * n
  else (longRooms.find? (2 * n ≤ ·)).getD (2 * n)

/-- Registers a key of the table at a place. -/
def addKey (r : Register) (p : Place) (key : Text) : Place × Register :=
  r.extend p key (p.length + 1)

/-- Puts a name behind a place from which longer keys will go on. -/
def addStem (r : Register) (p : Place) (name : Text) : Place × Register :=
  r.extend p name (roomBeyond p.length)

/-- Adds a row for the table at a path: the row of its parents, continued. -/
def addTable (r : Register) (path : KeyPath) : Place × Register :=
  r.addRow path (roomBeyond (path.length - 1))

theorem path_addRow (r : Register) (names : KeyPath) (room : Nat) :
    (r.addRow names room).2.path (r.addRow names room).1 = names := by
  simp [addRow, path]

/-- A new row leaves the places that there were as they are. -/
theorem path_addRow_of_lt (r : Register) {p : Place} (h : p.row < r.rows.length) (names : KeyPath)
    (room : Nat) : (r.addRow names room).2.path p = r.path p := by
  simp [addRow, path, List.getElem?_append_left h]

/-- Filling a slot changes no other row. -/
theorem path_fill_of_ne (r : Register) {p q : Place} (h : q.row ≠ p.row) (name : Text) :
    (r.fill p name).2.path q = r.path q := by
  simp [fill, path, Ne.symm h]

end Register

end Glyph8.Toml
