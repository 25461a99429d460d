import Glyph8.Assembly.Program
import Glyph8.Instruction.Printer
import Glyph8.Text.Column
import Glyph8.Text.Sink

/-!
# Dumps

The dump of a program is a table of its labels, a blank line, and a table of its words with their
positions, source lines and mnemonics.
-/

namespace Glyph8.Program

/-- A row of the label table. -/
def labelRow (name position : Text) : Text :=
  name.alignLeft 16 ++ utf8 " " ++ position ++ utf8 "\n"

/-- A row of the word table. -/
def wordRow (position line word instruction : Text) : Text :=
  position.alignLeft 4 ++ utf8 " " ++ line.alignLeft 4 ++ utf8 " " ++ word.alignLeft 10 ++
    utf8 " " ++ instruction ++ utf8 "\n"

/-- The rows of the labels, in byte order of their names. -/
def labelRows (p : Program) : List Text :=
  p.symbols.sorted.map fun (name, position) => labelRow name (Text.decimal position)

/-- The rows of the words, in order. -/
def wordRows (p : Program) : List Text :=
  (p.placed.zipIdx 1).map fun (w, position) =>
    wordRow (Text.decimal position) (Text.signedDecimal w.line) (Word.bits w.word)
      (Word.decode w.word).mnemonic

/-- The lines of a dump. -/
def dumpLines (p : Program) : List Text :=
  labelRow (utf8 "LABEL") (utf8 "PC") :: p.labelRows ++
    utf8 "\n" :: wordRow (utf8 "PC") (utf8 "LINE") (utf8 "WORD") (utf8 "INSTRUCTION") :: p.wordRows

/-- Writes the dump line by line; lines that do not fit are left out. -/
def dump (p : Program) (out : Sink) : Sink := out.offerAll p.dumpLines

end Glyph8.Program
