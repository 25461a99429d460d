import Glyph8.Assembly.Section
import Glyph8.Instruction.Printer
import Glyph8.Text.Column
import Glyph8.Text.Sink

/-!
# Listings

An executable turned back into text: a listing with one row for each word, or a source file. In a
listing, an unassigned system call is shown with its number.

A row of a listing has the position of the word, its bits, the instruction in source form and, as a
comment, the mnemonic, in columns. It is meant to be read. A source file has the code marker and
then the instructions, and is meant to be assembled. An unassigned system call has no source form,
so there it stands as a question mark, which cannot be assembled.

Writing a listing stops at the first row that does not fit.
-/

namespace Glyph8.Listing

/-- The source column of a row. -/
def sourceColumn (i : Instruction) : Text :=
  match i with
  | .syscall id =>
    if (Syscall.ofCode? (byteOf id)).isSome then i.source
    else spaced [String.utf8EncodeChar Opcode.syscall.symbol, unassigned ++ Text.decimal id]
  | _ => i.source

/-- The row of a word at a position: the position, the bits, the source form, and the mnemonic as a
comment. -/
def row (position : Nat) (w : Word) : Text :=
  let i := Word.decode w
  (Text.decimal position).alignRight 4 ++ utf8 "  " ++ Word.bits w ++ utf8 "  " ++
    (sourceColumn i).alignLeft 16 ++ utf8 " # " ++ i.mnemonic ++ utf8 "\n"

/-- The rows of an executable. -/
def rows (code : List Word) : List Text :=
  (code.zipIdx 1).map fun (w, position) => row position w

/-- Writes texts until one does not fit, and says whether all did. -/
def writeAll : List Text → Sink → Bool × Sink
  | [], out => (true, out)
  | t :: rest, out =>
    match out.write? t with
    | some out => writeAll rest out
    | none => (false, out)

/-- Writes the listing of an executable, and says whether all of it was written. -/
def write (code : List Word) (out : Sink) : Bool × Sink := writeAll (rows code) out

/-- The source file of an executable: the code marker, and a line for each word. -/
def source (code : List Word) : Text :=
  String.utf8EncodeChar Marker.code ++ utf8 "\n" ++
    code.flatMap fun w => (Word.decode w).source ++ utf8 "\n"

end Glyph8.Listing
