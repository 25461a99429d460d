import Glyph8.Text.Basic

/-!
# File trees

A tree of files, directories, symbolic links and devices, with a working directory. A path is the
list of the names that lead to a node from the root; the root is always a directory. Inserting
changes what is found at one path and at no other.
-/

namespace Glyph8

/-- The devices that programs write to: one takes everything, the other is always full. Reading
from them gives nothing. -/
inductive Device where
  | null
  | full
deriving DecidableEq

/-- What stands at a path. -/
inductive Node where
  | directory
  | file (content : Text)
  | link (target : Text)
  | device (d : Device)
deriving DecidableEq

/-- The names that lead to a node from the root. -/
abbrev Path := List Text

/-- Whether a path comes before another: name by name, so that what is in a directory comes right
after it. -/
def Path.precedes : Path → Path → Bool
  | _, [] => false
  | [], _ :: _ => true
  | a :: p, b :: q => a.precedes b || (a == b && Path.precedes p q)

/-- A file tree. -/
structure FileTree where
  entries : List (Path × Node) := []
  workingDirectory : Path := []
deriving DecidableEq

namespace FileTree

/-- The node at a path. -/
def find? (t : FileTree) (path : Path) : Option Node :=
  if path = [] then some .directory else t.entries.lookup path

/-- The tree without the node at a path. -/
def erase (t : FileTree) (path : Path) : FileTree :=
  { t with entries := t.entries.filter fun entry => entry.1 != path }

/-- The tree with a node at a path. -/
def insert (t : FileTree) (path : Path) (node : Node) : FileTree :=
  { t with entries := (path, node) :: (t.erase path).entries }

/-- The tree with a node at a path, and with directories above it where nothing stands. -/
def insertDeep (t : FileTree) (path : Path) (node : Node) : FileTree :=
  let above := (List.range path.length).map path.take
  let t := above.foldl (fun t p => if (t.find? p).isSome then t else t.insert p .directory) t
  t.insert path node

theorem find?_insert_self (t : FileTree) {path : Path} (h : path ≠ []) (node : Node) :
    (t.insert path node).find? path = some node := by
  simp [find?, insert, h]

/-- Looking up a key is not changed by entries with other keys. -/
theorem lookup_filter_of_ne {entries : List (Path × Node)} {path other : Path} (h : other ≠ path) :
    (entries.filter fun entry => entry.1 != path).lookup other = entries.lookup other := by
  induction entries with
  | nil => rfl
  | cons entry rest ih =>
    obtain ⟨key, node⟩ := entry
    by_cases hk : key = path
    · have hne : (other == key) = false := by simp [hk, h]
      simp only [List.filter_cons, hk, bne_self_eq_false, Bool.false_eq_true, ↓reduceIte, ih]
      rw [← hk, List.lookup_cons, hne]
    · simp only [List.filter_cons, bne_iff_ne, ne_eq, hk, not_false_eq_true, ↓reduceIte,
        List.lookup_cons, ih]

theorem find?_erase_of_ne (t : FileTree) {path other : Path} (h : other ≠ path) :
    (t.erase path).find? other = t.find? other := by
  simp only [find?, erase, lookup_filter_of_ne h]

theorem find?_insert_of_ne (t : FileTree) {path other : Path} (h : other ≠ path) (node : Node) :
    (t.insert path node).find? other = t.find? other := by
  have hne : (other == path) = false := by simp [h]
  simp only [find?, insert, erase, List.lookup_cons, hne, lookup_filter_of_ne h]

/-- The regular files below a directory, by their paths from there and in the order of these. -/
def filesBelow (t : FileTree) (directory : Path) : List (Path × Text) :=
  let files := t.entries.filterMap fun (path, node) =>
    match node with
    | .file content =>
      if directory.isPrefixOf path then some (path.drop directory.length, content) else none
    | _ => none
  files.mergeSort fun a b => !b.1.precedes a.1

end FileTree

end Glyph8
