import Glyph8.Instruction.Alphabet
import Glyph8.Text.Blank
import Glyph8.Text.Numeral

/-!
# Lines of the code section

A line is read as words up to a comment. It is blank, a label, or an instruction with its operands.

Words are runs of characters that are not blank, and a comment begins at a word that begins with the
comment sign. A sign inside a word begins none. What is left are the tokens of the line (`tokens`),
and nothing else of a line is looked at after this.

A label is one token that ends in a colon. Two tokens are an instruction, even if the first ends in
a colon, and a colon alone is a label without a name, which is an error found later. A token spells
an opcode, a register or a system call by its first character alone.
-/

namespace Glyph8

/-- A line of the code section with its number in the source file. Lines that come from a macro
have the number of the line that uses the macro. -/
structure Line where
  num : Int
  text : Text
deriving DecidableEq

namespace Line

/-- The byte that begins a comment. -/
def commentMark : UInt8 := 0x23

/-- The byte that ends a label. -/
def labelMark : UInt8 := 0x3A

/-- Whether a word begins a comment. -/
def isComment (word : Text) : Bool := word.head? == some commentMark

/-- The words of a text before its first comment. -/
def tokens (t : Text) : List Text := t.words.takeWhile (!isComment ·)

/-- The name a label line defines: the line is one token that ends in a colon. -/
def label? : List Text → Option Text
  | [token] => if token.getLast? = some labelMark then some token.dropLast else none
  | _ => none

end Line

/-- What a line of code is. -/
inductive Statement where
  | blank
  | label (name : Text)
  | instruction (head : Text) (operands : List Text)
deriving DecidableEq

/-- The statement that tokens make. -/
def Statement.ofTokens : List Text → Statement
  | [] => .blank
  | head :: operands =>
    match Line.label? (head :: operands) with
    | some name => .label name
    | none => .instruction head operands

/-- The statement on a line. -/
def Line.statement (l : Line) : Statement := .ofTokens (Line.tokens l.text)

/-- The opcode a token spells. Only its first rune matters. -/
def Opcode.ofToken? (token : Text) : Option Opcode := token.leading?.bind Opcode.ofRune?

/-- The register a token spells. -/
def Register.ofToken? (token : Text) : Option Register := token.leading?.bind Register.ofRune?

/-- The system call a token spells. -/
def Syscall.ofToken? (token : Text) : Option Syscall := token.leading?.bind Syscall.ofRune?

/-- The displacement a token gives as a number, rather than by a label. -/
def jumpLiteral? (token : Text) : Option Int := token.integer?

end Glyph8
