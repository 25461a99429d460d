import Glyph8.Assembly.Diagnostic
import Glyph8.Assembly.Line

/-!
# Sections of a source file

A source file has macro definitions, each between an opening and a closing marker, and then, after
the code marker, the lines of code. A marker may stand anywhere on its line, and what else is on the
line of a closing or code marker is ignored.

The file is read line by line. `scan` carries along the macros that are done and the one that is
open. A line inside an open macro belongs to its body, even if it opens another one, unless it
closes the macro. The code marker inside of a macro is an error on the line that opened it. Outside,
a line without a marker is ignored, so text may stand before, between and after the definitions.

Everything after the code marker is code, and no marker is looked for in it. Lines keep their
numbers in the file, which begin at one (`numbered`). A file without a code marker is an error that
belongs to no line; its line number is zero.
-/

namespace Glyph8

/-- A named block of source lines. -/
structure Macro where
  name : Text
  /-- The line of the definition. -/
  line : Int := 0
  body : List Text := []
deriving DecidableEq

namespace Marker

/-- Begins a macro definition. -/
def openMacro : Char := '🔓'

/-- Ends a macro definition. -/
def closeMacro : Char := '🔒'

/-- Begins the code. -/
def code : Char := '💬'

end Marker

/-- Lines of code, numbered from `first` on. -/
def numbered (first : Nat) (texts : List Text) : List Line :=
  (texts.zipIdx first).map fun (text, i) => ⟨i, text⟩

/-- The parts of a source file. -/
structure Sections where
  macros : List Macro
  code : List Line
deriving DecidableEq

namespace Sections

/-- The name on the line that opens a macro: its second word. -/
def macroName? (line : Text) : Option Text := line.words[1]?

/-- Reads lines from number `num` on. `done` are the macros read so far and `current` is the one
that is open. -/
def scan (num : Nat) (done : List Macro) : Option Macro → List Text → Except Diagnostic Sections
  | some m, [] => .error ⟨m.line, .macroNeverClosed m.name⟩
  | none, [] => .error ⟨0, .missingCodeSection⟩
  | some m, text :: rest =>
    if text.hasChar Marker.closeMacro then scan (num + 1) (done ++ [m]) none rest
    else if text.hasChar Marker.code then .error ⟨m.line, .macroOpenAtCode m.name⟩
    else scan (num + 1) done (some { m with body := m.body ++ [text] }) rest
  | none, text :: rest =>
    if text.hasChar Marker.openMacro then
      match macroName? text with
      | none => .error ⟨num, .macroNameMissing⟩
      | some name =>
        if done.any (·.name == name) then .error ⟨num, .duplicateMacro name⟩
        else scan (num + 1) done (some { name, line := num }) rest
    else if text.hasChar Marker.code then .ok { macros := done, code := numbered (num + 1) rest }
    else scan (num + 1) done none rest

end Sections

/-- The sections of a source file. -/
def sections (src : Text) : Except Diagnostic Sections :=
  Sections.scan 1 [] none src.lines

end Glyph8
