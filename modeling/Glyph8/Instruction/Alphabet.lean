import Glyph8.Text.Rune

/-!
# The alphabet of the instruction set

Eight opcodes, four registers and three system calls. In source text each is spelled by one emoji,
in listings by an ASCII name, and in a word by a small number. Numbers that stand for none of them
are shown as a question mark.
-/

namespace Glyph8

/-- How the operand bits of an instruction are laid out. -/
inductive Format where
  /-- Two registers and a one-bit immediate. -/
  | register
  /-- One register and a three-bit immediate. -/
  | immediate
  /-- A signed displacement. -/
  | jump
  /-- The number of a system call. -/
  | syscall
deriving DecidableEq

/-- The name of a format in messages. -/
def Format.name : Format → Text
  | .register => utf8 "R-type"
  | .immediate => utf8 "I-type"
  | .jump => utf8 "jump"
  | .syscall => utf8 "syscall"

/-- How many operands an instruction of the format has. -/
def Format.arity : Format → Nat
  | .register => 3
  | .immediate => 2
  | .jump => 1
  | .syscall => 1

/-- The format with the given number; every number past the third is the last format. -/
def Format.ofCode (code : UInt8) : Format :=
  if code = 0 then .register
  else if code = 1 then .immediate
  else if code = 2 then .jump
  else .syscall

/-- What an instruction does. -/
inductive Opcode where
  | add
  | sub
  | ifeq
  | addi
  | subi
  | li
  | jump
  | syscall
deriving DecidableEq

/-- One of the four registers. -/
inductive Register where
  | r1
  | r2
  | r3
  | r4
deriving DecidableEq

/-- A service the machine offers to programs. -/
inductive Syscall where
  | print
  | read
  | terminate
deriving DecidableEq

/-- What a number that stands for nothing is shown as. -/
def unassigned : Text := utf8 "?"

namespace Opcode

/-- The opcodes in the order of their numbers. -/
def all : List Opcode := [add, sub, ifeq, addi, subi, li, jump, syscall]

/-- The number of an opcode. -/
def code : Opcode → UInt8
  | add => 0
  | sub => 1
  | ifeq => 2
  | addi => 3
  | subi => 4
  | li => 5
  | jump => 6
  | syscall => 7

/-- The opcode with the given number. -/
def ofCode? (code : UInt8) : Option Opcode := all.find? (·.code == code)

/-- The emoji that spells an opcode. -/
def symbol : Opcode → Char
  | add => '💘'
  | sub => '💔'
  | ifeq => '🤔'
  | addi => '👆'
  | subi => '👇'
  | li => '👈'
  | jump => '♿'
  | syscall => '🤖'

/-- The opcode spelled by a rune. -/
def ofRune? (r : Rune) : Option Opcode := all.find? fun o => Rune.scalar o.symbol == r

/-- The ASCII name of an opcode. -/
def name : Opcode → Text
  | add => utf8 "add"
  | sub => utf8 "sub"
  | ifeq => utf8 "ifeq"
  | addi => utf8 "addi"
  | subi => utf8 "subi"
  | li => utf8 "li"
  | jump => utf8 "j"
  | syscall => utf8 "syscall"

/-- The operand layout an opcode uses. -/
def format : Opcode → Format
  | add | sub | ifeq => .register
  | addi | subi | li => .immediate
  | jump => .jump
  | syscall => .syscall

end Opcode

namespace Register

/-- The registers in the order of their numbers. -/
def all : List Register := [r1, r2, r3, r4]

/-- The number of a register. -/
def code : Register → UInt8
  | r1 => 0
  | r2 => 1
  | r3 => 2
  | r4 => 3

/-- The register with the given number. -/
def ofCode? (code : UInt8) : Option Register := all.find? (·.code == code)

/-- The emoji that spells a register. -/
def symbol : Register → Char
  | r1 => '🍩'
  | r2 => '👀'
  | r3 => '🍎'
  | r4 => '🍊'

/-- The register spelled by a rune. -/
def ofRune? (r : Rune) : Option Register := all.find? fun x => Rune.scalar x.symbol == r

/-- The ASCII name of a register. -/
def name : Register → Text
  | r1 => utf8 "r1"
  | r2 => utf8 "r2"
  | r3 => utf8 "r3"
  | r4 => utf8 "r4"

end Register

namespace Syscall

/-- The system calls in the order of their numbers. -/
def all : List Syscall := [print, read, terminate]

/-- The number of a system call. -/
def code : Syscall → UInt8
  | print => 0
  | read => 1
  | terminate => 2

/-- The system call with the given number. -/
def ofCode? (code : UInt8) : Option Syscall := all.find? (·.code == code)

/-- The emoji that spells a system call. -/
def symbol : Syscall → Char
  | print => '📢'
  | read => '📜'
  | terminate => '🔪'

/-- The system call spelled by a rune. -/
def ofRune? (r : Rune) : Option Syscall := all.find? fun s => Rune.scalar s.symbol == r

/-- The ASCII name of a system call. -/
def name : Syscall → Text
  | print => utf8 "print"
  | read => utf8 "read"
  | terminate => utf8 "terminate"

end Syscall

/-! ## Numbers taken as letters of the alphabet -/

/-- The spelling of the opcode with the given number. -/
def Opcode.symbolOf (code : UInt8) : Text :=
  (Opcode.ofCode? code).elim unassigned fun o => String.utf8EncodeChar o.symbol

/-- The name of the opcode with the given number. -/
def Opcode.nameOf (code : UInt8) : Text := (Opcode.ofCode? code).elim unassigned Opcode.name

/-- The layout of the opcode with the given number; unassigned numbers share the last one. -/
def Opcode.formatOf (code : UInt8) : Format := (Opcode.ofCode? code).elim .syscall Opcode.format

/-- The spelling of the register with the given number. -/
def Register.symbolOf (code : UInt8) : Text :=
  (Register.ofCode? code).elim unassigned fun r => String.utf8EncodeChar r.symbol

/-- The name of the register with the given number. -/
def Register.nameOf (code : UInt8) : Text := (Register.ofCode? code).elim unassigned Register.name

/-- The spelling of the system call with the given number. -/
def Syscall.symbolOf (code : UInt8) : Text :=
  (Syscall.ofCode? code).elim unassigned fun s => String.utf8EncodeChar s.symbol

/-- The name of the system call with the given number. -/
def Syscall.nameOf (code : UInt8) : Text := (Syscall.ofCode? code).elim unassigned Syscall.name

end Glyph8
