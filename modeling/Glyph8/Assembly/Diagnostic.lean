import Glyph8.Instruction.Basic
import Glyph8.Text.Quoted

/-!
# Diagnostics

What can go wrong between a source text and the executable made from it. A `Fault` is the cause; a
`Diagnostic` adds the source line; a `Report` is what a caller sees: the kind of the failure, the
line, the message and the error underneath, if there is one.

Faults have the data that their messages need, and kind, message and cause are functions of them. So
a message can never disagree with the kind of its failure, and statements about failures can be made
about faults. Several faults have the same kind: a macro is unterminated at the code marker and at
the end of the file, and most faults of operands are parse errors.

Names and tokens are quoted in messages, since they may be made of any bytes. Line numbers are
integers, because callers may pass any; line zero stands for no line, and such a report does not
show one.
-/

namespace Glyph8

/-- The classes of failures. Their numbers are part of the interface; a number that stands for no
class is kept as it is. -/
inductive Kind where
  | unterminatedMacro
  | macroArgumentMissing
  | macroNameMissing
  | duplicateMacro
  | missingCodeSection
  | duplicateLabel
  | invalidLabel
  | unknownOpcode
  | unknownLabel
  | operandParseError
  | displacementOverflow
  | unknownSyscall
  | fileError
  | unlisted (code : Int)
deriving DecidableEq

namespace Kind

/-- The class with the given number. -/
def ofCode (code : Int) : Kind :=
  match code with
  | 1 => unterminatedMacro
  | 2 => macroArgumentMissing
  | 3 => macroNameMissing
  | 4 => duplicateMacro
  | 5 => missingCodeSection
  | 6 => duplicateLabel
  | 7 => invalidLabel
  | 8 => unknownOpcode
  | 9 => unknownLabel
  | 10 => operandParseError
  | 11 => displacementOverflow
  | 12 => unknownSyscall
  | 13 => fileError
  | other => unlisted other

/-- The name of a class. -/
def name : Kind → Text
  | unterminatedMacro => utf8 "UnterminatedMacro"
  | macroArgumentMissing => utf8 "MacroArgumentMissing"
  | macroNameMissing => utf8 "MacroNameMissing"
  | duplicateMacro => utf8 "DuplicateMacro"
  | missingCodeSection => utf8 "MissingCodeSection"
  | duplicateLabel => utf8 "DuplicateLabel"
  | invalidLabel => utf8 "InvalidLabel"
  | unknownOpcode => utf8 "UnknownOpcode"
  | unknownLabel => utf8 "UnknownLabel"
  | operandParseError => utf8 "OperandParseError"
  | displacementOverflow => utf8 "DisplacementOverflow"
  | unknownSyscall => utf8 "UnknownSyscall"
  | fileError => utf8 "IOError"
  | unlisted _ => utf8 "Error"

end Kind

/-- What a caller sees of a failure. Line 0 means that it belongs to no line. -/
structure Report where
  kind : Kind
  line : Int
  message : Text
  cause : Option Text := none
deriving DecidableEq

/-- The text of a report: the kind, the line if there is one, and the message. -/
def Report.text (r : Report) : Text :=
  if 0 < r.line then
    r.kind.name ++ utf8 " at line " ++ Text.signedDecimal r.line ++ utf8 ": " ++ r.message
  else r.kind.name ++ utf8 ": " ++ r.message

/-- Which register operand of an instruction is meant. -/
inductive RegisterPlace where
  | first
  | second
  | only
deriving DecidableEq

/-- The name of a register operand in messages. -/
def RegisterPlace.name : RegisterPlace → Text
  | first => utf8 "first register"
  | second => utf8 "second register"
  | only => utf8 "register"

/-- Why a source text cannot be assembled, or its executable cannot be written. -/
inductive Fault where
  | macroOpenAtCode (name : Text)
  | macroNeverClosed (name : Text)
  | macroArgumentMissing (name : Text)
  | macroNameMissing
  | duplicateMacro (name : Text)
  | missingCodeSection
  | duplicateLabel (name : Text)
  | emptyLabel
  | unknownOpcode (token : Text)
  | undefinedLabel (name : Text)
  | operandCount (op : Opcode) (found : Nat)
  | unknownRegister (place : RegisterPlace) (token : Text)
  | malformedImmediate (token : Text)
  | immediateRange (value limit : Nat)
  | literalRange (token : Text)
  | labelRange (distance : Int) (name : Text)
  | unknownSyscall (token : Text)
  | packing (mnemonic : Text) (cause : FieldError)
  | reading (cause : Text)
  | creating (path cause : Text)
  | writing (path cause : Text)
  | closing (path : Text) (causes : List Text)
deriving DecidableEq

/-- Several errors as one text, each a point of a list. -/
def errorList (causes : List Text) : Text :=
  let count := if causes.length = 1 then utf8 "1 error" else
    Text.decimal causes.length ++ utf8 " errors"
  let points := causes.map (utf8 "* " ++ ·)
  count ++ utf8 " occurred:\n\t" ++ (utf8 "\n\t").intercalate points ++ utf8 "\n\n"

namespace Fault

/-- The class of a fault. -/
def kind : Fault → Kind
  | macroOpenAtCode _ | macroNeverClosed _ => .unterminatedMacro
  | macroArgumentMissing _ => .macroArgumentMissing
  | macroNameMissing => .macroNameMissing
  | duplicateMacro _ => .duplicateMacro
  | missingCodeSection => .missingCodeSection
  | duplicateLabel _ => .duplicateLabel
  | emptyLabel => .invalidLabel
  | unknownOpcode _ => .unknownOpcode
  | undefinedLabel _ => .unknownLabel
  | operandCount _ _ | unknownRegister _ _ | malformedImmediate _ | immediateRange _ _
  | packing _ _ => .operandParseError
  | literalRange _ | labelRange _ _ => .displacementOverflow
  | unknownSyscall _ => .unknownSyscall
  | reading _ | creating _ _ | writing _ _ | closing _ _ => .fileError

/-- The text of a displacement that no jump can cover. -/
def farJump (what : Text) : Text :=
  utf8 "displacement " ++ what ++ utf8 " not in " ++ Displacement.boundsText

/-- The error underneath a fault. -/
def cause : Fault → Option Text
  | packing _ cause => some cause.message
  | reading cause | creating _ cause | writing _ cause => some cause
  | closing _ causes => some (errorList causes)
  | _ => none

/-- The text of a fault. -/
def message : Fault → Text
  | macroOpenAtCode name =>
    utf8 "macro " ++ name.quote ++ utf8 " is not closed before the code section"
  | macroNeverClosed name => utf8 "macro " ++ name.quote ++ utf8 " is never closed"
  | macroArgumentMissing name => utf8 "macro " ++ name.quote ++ utf8 " needs an argument"
  | macroNameMissing => utf8 "macro definition has no name"
  | duplicateMacro name => utf8 "macro " ++ name.quote ++ utf8 " is already defined"
  | missingCodeSection => utf8 "no 💬 code section marker found"
  | duplicateLabel name => utf8 "label " ++ name.quote ++ utf8 " is already defined"
  | emptyLabel => utf8 "empty label name"
  | unknownOpcode token => utf8 "unknown opcode " ++ token.quote
  | undefinedLabel name => utf8 "jump to undefined label " ++ name.quote
  | operandCount op found =>
    op.name ++ utf8 " (" ++ op.format.name ++ utf8 ") takes " ++ Text.decimal op.format.arity ++
      utf8 " operands, found " ++ Text.decimal found
  | unknownRegister place token => place.name ++ utf8 ": unknown register " ++ token.quote
  | malformedImmediate token =>
    utf8 "immediate: " ++ token.quote ++ utf8 " is not a small unsigned integer"
  | immediateRange value limit =>
    utf8 "immediate: " ++ Text.decimal value ++ utf8 " not in 0.." ++ Text.decimal limit
  | literalRange token => farJump token
  | labelRange distance name =>
    farJump (Text.signedDecimal distance ++ utf8 " to " ++ name.quote)
  | unknownSyscall token => utf8 "unknown syscall " ++ token.quote
  | packing mnemonic cause => utf8 "encoding " ++ mnemonic ++ utf8 ": " ++ cause.message
  | reading cause => utf8 "reading source: " ++ cause
  | creating path cause => utf8 "creating " ++ path ++ utf8 ": " ++ cause
  | writing path cause => utf8 "writing " ++ path ++ utf8 ": " ++ cause
  | closing path causes => utf8 "closing " ++ path ++ utf8 ": " ++ errorList causes

end Fault

/-- A fault and the source line it is found on. -/
structure Diagnostic where
  line : Int
  fault : Fault
deriving DecidableEq

namespace Diagnostic

/-- The class of a diagnostic. -/
def kind (d : Diagnostic) : Kind := d.fault.kind

/-- A diagnostic as a caller sees it. -/
def report (d : Diagnostic) : Report :=
  { kind := d.kind, line := d.line, message := d.fault.message, cause := d.fault.cause }

/-- The text of a diagnostic. -/
def text (d : Diagnostic) : Text := d.report.text

end Diagnostic

/-- Puts a source line to a fault. -/
def atLine {α : Type} (line : Int) (r : Except Fault α) : Except Diagnostic α :=
  r.mapError fun fault => ⟨line, fault⟩

end Glyph8
