import Glyph8.FileTree.Resolve

/-!
# Reading and writing files

Files are read and written whole. Opening a file for writing empties it; what is written then may
still fail to fit.

Opening and writing are two steps, and the tree between them is the one with an empty file, so a
failure of the second step can be seen in it. Files have room for everything; a write is refused by
the device that is always full, and only if there is something to write. A failure names the
operation, the file as it was named, and the error.

Removing a name does not follow a link at its end, unlike everything else.
-/

namespace Glyph8

/-- What was being done to a file. -/
inductive FileOperation where
  | opening
  | reading
  | writing
deriving DecidableEq

/-- The word for an operation in messages. -/
def FileOperation.word : FileOperation → Text
  | opening => utf8 "open"
  | reading => utf8 "read"
  | writing => utf8 "write"

/-- An operation on a named file that failed. -/
structure FileFailure where
  operation : FileOperation
  name : Text
  error : FileError
deriving DecidableEq

/-- The text of a failure. -/
def FileFailure.message (f : FileFailure) : Text :=
  f.operation.word ++ utf8 " " ++ f.name ++ utf8 ": " ++ f.error.message

/-- A file opened for writing. -/
inductive Handle where
  | file (path : Path)
  | device (d : Device)
deriving DecidableEq

namespace FileTree

/-- The content of a named file. -/
def read (t : FileTree) (name : Text) : Except FileFailure Text :=
  match t.resolve name with
  | .error e => .error ⟨.opening, name, e⟩
  | .ok (.vacant _ _) => .error ⟨.opening, name, .missing⟩
  | .ok (.directory _) => .error ⟨.reading, name, .isDirectory⟩
  | .ok (.file _ content) => .ok content
  | .ok (.device _) => .ok []

/-- Opens a named file for writing: it is made if it does not exist, and emptied if it does. -/
def create (t : FileTree) (name : Text) : Except FileFailure (Handle × FileTree) :=
  match t.resolve name with
  | .error e => .error ⟨.opening, name, e⟩
  | .ok (.directory _) => .error ⟨.opening, name, .isDirectory⟩
  | .ok (.vacant path asDirectory) =>
    if asDirectory then .error ⟨.opening, name, .isDirectory⟩
    else .ok (.file path, t.insert path (.file []))
  | .ok (.file path _) => .ok (.file path, t.insert path (.file []))
  | .ok (.device d) => .ok (.device d, t)

/-- Writes the content of a file that was opened under the given name. -/
def write (t : FileTree) (name : Text) (handle : Handle) (content : Text) :
    Except FileFailure FileTree :=
  match handle with
  | .file path => .ok (t.insert path (.file content))
  | .device .null => .ok t
  | .device .full => if content.isEmpty then .ok t else .error ⟨.writing, name, .noSpace⟩

/-- Removes what a name stands for; a link is not followed. A name that stands for nothing is left
alone. -/
def remove (t : FileTree) (name : Text) : FileTree :=
  match (FileName.parts name).reverse with
  | [] => t
  | last :: above =>
    match t.follow linkLimit true (startOf name t.workingDirectory) above.reverse with
    | .ok (.directory path) => t.erase (path ++ [last])
    | _ => t

/-- Opens a named file as a serial line. No node of a tree is one, so this tells what stands in
the way. -/
def serialFailure (t : FileTree) (name : Text) : Text :=
  match t.resolve name with
  | .error e => e.message
  | .ok (.vacant _ _) => FileError.missing.message
  | .ok (.directory _) => FileError.isDirectory.message
  | .ok (.file _ _) | .ok (.device _) => utf8 "Invalid serial port"

end FileTree

end Glyph8
