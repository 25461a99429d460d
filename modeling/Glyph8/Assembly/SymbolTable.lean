import Glyph8.Assembly.Diagnostic
import Glyph8.Assembly.Line

/-!
# Symbol tables

The first pass over the expanded code counts instructions and records every label with the position
of the instruction after it. Positions are counted from one.

A table is a list of names with positions, in the order of their definition. The pass is a fold over
the lines (`Survey.visit`), with what it has seen so far in a `Survey`: the table, the number of
instructions and the operands of jumps. It stops at the first label that is empty or defined before.

Assembling uses the table alone, since the second pass finds out which jumps lead nowhere. Where
only the table is wanted, `buildSymbols` checks the jumps against it at the end, when all labels are
known. A jump may also be given by a number, and then it needs no label.
-/

namespace Glyph8

/-- Labels with their positions, in the order of their definition. -/
structure SymbolTable where
  entries : List (Text × Nat) := []
deriving DecidableEq

namespace SymbolTable

/-- The position of a label. -/
def find? (t : SymbolTable) (name : Text) : Option Nat := t.entries.lookup name

/-- Whether a label is in the table. -/
def contains (t : SymbolTable) (name : Text) : Bool := (t.find? name).isSome

/-- The table with a label at a position; an earlier position of the label is forgotten. -/
def insert (t : SymbolTable) (name : Text) (position : Nat) : SymbolTable :=
  ⟨t.entries.filter (·.1 != name) ++ [(name, position)]⟩

/-- The labels in byte order of their names. -/
def sorted (t : SymbolTable) : List (Text × Nat) :=
  t.entries.mergeSort fun a b => !b.1.precedes a.1

end SymbolTable

/-- The operand of a jump, and the line of the jump. -/
structure JumpReference where
  target : Text
  line : Int
deriving DecidableEq

/-- What the first pass has seen. -/
structure Survey where
  symbols : SymbolTable := {}
  count : Nat := 0
  jumps : List JumpReference := []
deriving DecidableEq

namespace Survey

/-- The target that an instruction refers to, if it is a jump with an operand. -/
def jumpTarget? (head : Text) (operands : List Text) : Option Text :=
  if Opcode.ofToken? head = some .jump then operands.head? else none

/-- The survey after one more line. -/
def visit (s : Survey) (line : Line) : Except Diagnostic Survey :=
  match line.statement with
  | .blank => .ok s
  | .label name =>
    if name.isEmpty then .error ⟨line.num, .emptyLabel⟩
    else if s.symbols.contains name then .error ⟨line.num, .duplicateLabel name⟩
    else .ok { s with symbols := s.symbols.insert name (s.count + 1) }
  | .instruction head operands =>
    let jumps := (jumpTarget? head operands).toList.map fun target => ⟨target, line.num⟩
    .ok { s with count := s.count + 1, jumps := s.jumps ++ jumps }

end Survey

/-- The first pass over the code. -/
def survey (code : List Line) : Except Diagnostic Survey := code.foldlM Survey.visit {}

/-- Checks that a jump goes to a number or to a label of the table. -/
def JumpReference.check (symbols : SymbolTable) (j : JumpReference) : Except Diagnostic Unit :=
  if (jumpLiteral? j.target).isSome || symbols.contains j.target then .ok ()
  else .error ⟨j.line, .undefinedLabel j.target⟩

/-- The symbol table of code all of whose jumps have targets. -/
def buildSymbols (code : List Line) : Except Diagnostic SymbolTable := do
  let s ← survey code
  s.jumps.forM (JumpReference.check s.symbols)
  return s.symbols

end Glyph8
