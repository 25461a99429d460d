import Glyph8.Assembly.Section

/-!
# Macro expansion

A line uses a macro if the macro's name occurs anywhere in its code. Of several such macros the one
with the longest name is used, and of equally long names the one defined first. The second token of
the line is the argument: it replaces every placeholder of the macro's body. The result is not
searched for macros again.

The code of a line is its tokens with single spaces between them, so a name, which is one word, is
found only inside of a token and never in a comment. Length is counted in bytes. The search goes
through a list that is sorted once (`longestFirst`); the sort is stable, which is what makes the
first definition win.

The lines of a body are used as they were written, comments included, and get the number of the line
that uses the macro. A macro needs an argument even if there is no placeholder in its body.
-/

namespace Glyph8

namespace Macro

/-- The byte that stands for the argument in a macro's body. -/
def placeholder : UInt8 := 0x5F

/-- The lines of a macro used on line `num` with the given argument. -/
def instantiate (m : Macro) (argument : Text) (num : Int) : List Line :=
  m.body.map fun text => ⟨num, text.substitute placeholder argument⟩

/-- Macros with longer names first, otherwise in the given order. -/
def longestFirst (macros : List Macro) : List Macro :=
  macros.mergeSort fun a b => b.name.length ≤ a.name.length

/-- The first macro whose name occurs in the code of a line. No macro is used on a blank line. -/
def used? (ranked : List Macro) (code : Text) : Option Macro :=
  if code.isEmpty then none else ranked.find? (·.name.occursIn code)

end Macro

/-- A macro with the argument it is used with, and the line it is used on. -/
structure Invocation where
  used : Macro
  argument : Text
  num : Int
deriving DecidableEq

/-- The macro a line uses, if it uses one. `ranked` has longer names first. -/
def Line.invocation? (ranked : List Macro) (line : Line) : Except Diagnostic (Option Invocation) :=
  let tokens := Line.tokens line.text
  match Macro.used? ranked (Text.joinWith Text.space tokens) with
  | none => .ok none
  | some m =>
    match tokens[1]? with
    | none => .error ⟨line.num, .macroArgumentMissing m.name⟩
    | some argument => .ok (some ⟨m, argument, line.num⟩)

/-- The lines that replace a line. -/
def Line.expand (ranked : List Macro) (line : Line) : Except Diagnostic (List Line) := do
  match ← line.invocation? ranked with
  | none => return [line]
  | some i => return i.used.instantiate i.argument i.num

/-- The code with every use of a macro replaced. -/
def expand (macros : List Macro) (code : List Line) : Except Diagnostic (List Line) := do
  let blocks ← code.mapM (Line.expand (Macro.longestFirst macros))
  return blocks.flatten

end Glyph8
