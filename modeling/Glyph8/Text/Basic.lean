/-!
# Byte texts

Source files, console lines, file names and executables are texts: lists of bytes that need not be
valid UTF-8. This file has what works on bytes alone: text constants, searching, replacing a byte,
and the line structure of a source file.

Lists make definitions by recursion and proofs by induction direct, and everything here is small.
Text constants are written as strings and turned into bytes by `utf8`.

Lines are what stands between newlines, and a carriage return before a newline belongs to the end of
the line. After the last newline there is one more line, even if it is empty, and it keeps a
carriage return at its end, as no newline follows.
-/

namespace Glyph8

/-- A text is a list of bytes. -/
abbrev Text := List UInt8

/-- The UTF-8 bytes of a string. -/
def utf8 (s : String) : Text := s.toList.flatMap String.utf8EncodeChar

namespace Text

/-- The byte that ends a line. -/
def newline : UInt8 := 0x0A

/-- The byte that may stand before the end of a line. -/
def carriageReturn : UInt8 := 0x0D

/-- The byte `' '`. -/
def space : UInt8 := 0x20

/-- Whether `pattern` occurs in the text as a run of bytes. -/
def occursIn (pattern : Text) : Text → Bool
  | [] => pattern.isEmpty
  | b :: rest => pattern.isPrefixOf (b :: rest) || occursIn pattern rest

/-- A text with every occurrence of the byte `old` replaced by the text `new`. -/
def substitute (t : Text) (old : UInt8) (new : Text) : Text :=
  t.flatMap fun b => if b = old then new else [b]

/-- `pieces` joined by the byte `separator`. -/
def joinWith (separator : UInt8) (pieces : List Text) : Text :=
  [separator].intercalate pieces

/-- A line without the carriage return at its end, if it has one. -/
def stripReturn (line : Text) : Text :=
  if line.getLast? = some carriageReturn then line.dropLast else line

/-- Of the pieces between newlines, all but the last are followed by a newline, and a carriage
return right before that newline belongs to the line ending. -/
def endLines : List Text → List Text
  | [] => []
  | [last] => [last]
  | line :: rest => stripReturn line :: endLines rest

/-- The lines of a source file. Lines end in a newline or in a carriage return and a newline; what
follows the last newline is a line too, even if it is empty. -/
def lines (src : Text) : List Text :=
  endLines (src.splitOn newline)

/-- The byte order of texts: the first difference decides, and a text comes after its own
beginnings. -/
def precedes : Text → Text → Bool
  | [], [] => false
  | [], _ :: _ => true
  | _ :: _, [] => false
  | a :: s, b :: t => a < b || (a == b && precedes s t)

end Text

end Glyph8
