import Glyph8.FileTree.Basic

/-!
# Resolving names

A name is resolved one part at a time from the root or from the working directory. Symbolic links
are followed, up to a limit. The end is a node, or a vacant place in an existing directory.

Names are texts of any bytes but zero, with slashes between the parts. Empty parts do not count, and
a slash at the end asks for a directory. The way goes up for two dots, from the place that was
reached and not from the name, so after a link it goes up from where the link leads. Going up from
the root stays there.

The way up to the next link is a recursion over the parts (`descend`). At a link the parts of its
target are put before those that are left, which may make the list longer; what bounds the recursion
is the number of links that may still be followed (`follow`).
-/

namespace Glyph8

/-- Why a name cannot be used. -/
inductive FileError where
  | missing
  | notDirectory
  | isDirectory
  | tooManyLinks
  | nameTooLong
  | invalidName
  | noSpace
deriving DecidableEq

/-- The text of a file error. -/
def FileError.message : FileError → Text
  | missing => utf8 "no such file or directory"
  | notDirectory => utf8 "not a directory"
  | isDirectory => utf8 "is a directory"
  | tooManyLinks => utf8 "too many levels of symbolic links"
  | nameTooLong => utf8 "file name too long"
  | invalidName => utf8 "invalid argument"
  | noSpace => utf8 "no space left on device"

/-- Where a name leads. -/
inductive Place where
  | directory (path : Path)
  | file (path : Path) (content : Text)
  | device (d : Device)
  /-- Nothing stands there. `asDirectory` says whether the name asks for a directory. -/
  | vacant (path : Path) (asDirectory : Bool)
deriving DecidableEq

namespace FileName

/-- The byte between the parts of a name. -/
def separator : UInt8 := 0x2F

/-- The parts of a name. -/
def parts (name : Text) : List Text := (name.splitOn separator).filter (!·.isEmpty)

/-- Whether a name begins at the root. -/
def isAbsolute (name : Text) : Bool := name.head? == some separator

/-- Whether a name ends in a separator and so asks for a directory. -/
def asksDirectory (name : Text) : Bool := name.getLast? == some separator

/-- The length that a name must stay below. -/
def lengthLimit : Nat := 4096

/-- The greatest length of a part of a name. -/
def partLimit : Nat := 255

end FileName

namespace FileTree

/-- Where the way along the parts of a name stops. -/
inductive Stop where
  | place (p : Place)
  /-- A link in `directory`, with the parts that are still to go. -/
  | link (directory : Path) (target : Text) (rest : List Text)

/-- Goes along the parts of a name from a directory, up to the first link. -/
def descend (t : FileTree) (asDirectory : Bool) (here : Path) : List Text → Except FileError Stop
  | [] => .ok (.place (.directory here))
  | part :: rest =>
    if part = utf8 "." then descend t asDirectory here rest
    else if part = utf8 ".." then descend t asDirectory here.dropLast rest
    else if FileName.partLimit < part.length then .error .nameTooLong
    else
      let path := here ++ [part]
      let last := rest.isEmpty
      match t.find? path with
      | none => if last then .ok (.place (.vacant path asDirectory)) else .error .missing
      | some .directory => descend t asDirectory path rest
      | some (.link target) => .ok (.link here target rest)
      | some (.file content) =>
        if last && !asDirectory then .ok (.place (.file path content)) else .error .notDirectory
      | some (.device d) =>
        if last && !asDirectory then .ok (.place (.device d)) else .error .notDirectory

/-- The directory that a name begins at, seen from `here`. -/
def startOf (name : Text) (here : Path) : Path := if FileName.isAbsolute name then [] else here

/-- Goes along the parts of a name and follows at most `links` links. -/
def follow (t : FileTree) (links : Nat) (asDirectory : Bool) (here : Path) (parts : List Text) :
    Except FileError Place := do
  match ← t.descend asDirectory here parts with
  | .place p => .ok p
  | .link directory target rest =>
    match links with
    | 0 => .error .tooManyLinks
    | links + 1 =>
      let asDirectory := asDirectory || (rest.isEmpty && FileName.asksDirectory target)
      t.follow links asDirectory (startOf target directory) (FileName.parts target ++ rest)

/-- How many links are followed for one name. -/
def linkLimit : Nat := 40

/-- Where a name leads. -/
def resolve (t : FileTree) (name : Text) : Except FileError Place :=
  if name.contains 0 then .error .invalidName
  else if name.isEmpty then .error .missing
  else if FileName.lengthLimit ≤ name.length then .error .nameTooLong
  else
    t.follow linkLimit (FileName.asksDirectory name) (startOf name t.workingDirectory)
      (FileName.parts name)

end FileTree

end Glyph8
