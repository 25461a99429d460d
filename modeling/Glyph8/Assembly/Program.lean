import Glyph8.Assembly.Expansion
import Glyph8.Assembly.Operand
import Glyph8.Instruction.Printer

/-!
# Programs

Assembling a source text: its sections are split, macros are expanded, labels are collected, and
every instruction line becomes one word. The first error in this order stops assembly.

An error is thus not always that of the first bad line. Errors of the macro section are reported
before those of the code, and a label that is defined twice before an opcode that is unknown,
wherever the two stand. Each stage reports the first of its own errors.

An instruction is packed from its numbers (`Instruction.pack`), with the checks that any numbers
have to pass. An instruction that was read from tokens passes them, so the error for packing does
not occur; it is kept as part of the definition, and that it does not occur is a lemma about it.

A program keeps the source line of each word next to it (`PlacedWord`), and the symbol table.
-/

namespace Glyph8

/-- A word and the source line it comes from. -/
structure PlacedWord where
  line : Int
  word : Word
deriving DecidableEq

/-- An assembled program. -/
structure Program where
  placed : List PlacedWord
  symbols : SymbolTable
deriving DecidableEq

namespace Program

/-- The words of a program: its executable. -/
def words (p : Program) : List Word := p.placed.map (·.word)

/-- The source line of each word. -/
def lines (p : Program) : List Int := p.placed.map (·.line)

/-- How many instructions a program has. -/
def size (p : Program) : Nat := p.placed.length

end Program

/-- The word of an instruction, packed from its numbers. -/
def Instruction.pack (i : Instruction) : Except Fault Word :=
  i.fields.encode.mapError (.packing i.mnemonic)

/-- An instruction line of the expanded code. -/
structure InstructionLine where
  num : Int
  head : Text
  operands : List Text
deriving DecidableEq

namespace InstructionLine

/-- The instruction on a line, if it is an instruction line. -/
def ofLine? (line : Line) : Option InstructionLine :=
  match line.statement with
  | .instruction head operands => some ⟨line.num, head, operands⟩
  | _ => none

/-- The word of an instruction line, where `distanceTo` gives the distance to a position. -/
def encodeBy (symbols : SymbolTable) (distanceTo : Nat → Int) (l : InstructionLine) :
    Except Diagnostic Word :=
  atLine l.num (Instruction.read symbols distanceTo l.head l.operands >>= Instruction.pack)

/-- The word of an instruction line at position `pc`. -/
def encode (symbols : SymbolTable) (pc : Nat) (l : InstructionLine) : Except Diagnostic Word :=
  l.encodeBy symbols (Operand.distance pc)

/-- The word of an instruction line at position `pc`, where positions are kept in 64 bits. This is
`encode` as long as no distance wraps around. -/
def encodeWrapped (symbols : SymbolTable) (pc : Nat) (l : InstructionLine) :
    Except Diagnostic Word :=
  l.encodeBy symbols (Operand.wrappedDistance pc)

/-- The word of an instruction line at position `pc`, with its line number. -/
def place (symbols : SymbolTable) (l : InstructionLine) (pc : Nat) :
    Except Diagnostic PlacedWord :=
  (l.encode symbols pc).map (⟨l.num, ·⟩)

end InstructionLine

/-- The instruction lines of the code, in order. -/
def instructionLines (code : List Line) : List InstructionLine :=
  code.filterMap InstructionLine.ofLine?

/-- The second pass: the words of the instruction lines, which stand at positions 1, 2, … -/
def encodeAll (symbols : SymbolTable) (code : List Line) : Except Diagnostic (List PlacedWord) :=
  ((instructionLines code).zipIdx 1).mapM fun (l, pc) => l.place symbols pc

/-- Assembles code that has no macros left. -/
def assembleCode (code : List Line) : Except Diagnostic Program := do
  let s ← survey code
  let placed ← encodeAll s.symbols code
  return { placed, symbols := s.symbols }

/-- The code of a source text, with every use of a macro replaced. -/
def expandedCode (src : Text) : Except Diagnostic (List Line) := do
  let parts ← sections src
  expand parts.macros parts.code

/-- Assembles a source text. -/
def assemble (src : Text) : Except Diagnostic Program := do
  let code ← expandedCode src
  assembleCode code

end Glyph8
