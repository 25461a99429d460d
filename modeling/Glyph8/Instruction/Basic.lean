import Glyph8.Instruction.Alphabet
import Glyph8.Text.Numeral

/-!
# Instructions

An `Instruction` has operands that are in range by construction. `Fields` is the same thing as plain
numbers, as a user might give them; `Fields.check` says which numbers make an instruction and what
is wrong with the others.

There are eight opcodes in four formats. The register format has two registers and one bit, the
immediate format has a register and three bits, a jump has a displacement, and a system call has its
number. The bit of an addition is a carry, that of a subtraction a borrow, and that of a comparison
says whether to skip on equality.

Fields that a format does not use are not looked at, so different fields may describe one
instruction. The number of a system call has two bits in an instruction, of which one value is
unassigned: such an instruction can be decoded from a word, but no fields check as it.
-/

namespace Glyph8

/-- The distance of a jump from itself to its target. -/
structure Displacement where
  val : Int
  bounds : -15 ≤ val ∧ val ≤ 15
deriving DecidableEq

namespace Displacement

/-- The largest distance a jump can cover, in either direction. -/
def limit : Int := 15

/-- A distance that a jump can cover. -/
def ofInt? (d : Int) : Option Displacement :=
  if h : -15 ≤ d ∧ d ≤ 15 then some ⟨d, h⟩ else none

/-- The bounds in messages. -/
def boundsText : Text := utf8 "-15..15"

end Displacement

/-- A decoded instruction. The system call is a two-bit number, of which the last is
unassigned. -/
inductive Instruction where
  | add (target source : Register) (carry : Fin 2)
  | sub (target source : Register) (borrow : Fin 2)
  | ifeq (left right : Register) (skipEqual : Fin 2)
  | addi (target : Register) (amount : Fin 8)
  | subi (target : Register) (amount : Fin 8)
  | li (target : Register) (value : Fin 8)
  | jump (distance : Displacement)
  | syscall (id : Fin 4)
deriving DecidableEq

/-- An instruction as plain numbers. Only the fields that its opcode's format uses matter. -/
structure Fields where
  op : UInt8
  reg1 : UInt8 := 0
  reg2 : UInt8 := 0
  imm : UInt8 := 0
  disp : Int := 0
  call : UInt8 := 0
deriving DecidableEq

/-- The byte of a small number. -/
def byteOf {n : Nat} (i : Fin n) : UInt8 := i.val.toUInt8

/-- The numbers of an instruction; the fields its format does not use are zero. -/
def Instruction.fields : Instruction → Fields
  | .add r s i => { op := 0, reg1 := r.code, reg2 := s.code, imm := byteOf i }
  | .sub r s i => { op := 1, reg1 := r.code, reg2 := s.code, imm := byteOf i }
  | .ifeq r s i => { op := 2, reg1 := r.code, reg2 := s.code, imm := byteOf i }
  | .addi r i => { op := 3, reg1 := r.code, imm := byteOf i }
  | .subi r i => { op := 4, reg1 := r.code, imm := byteOf i }
  | .li r i => { op := 5, reg1 := r.code, imm := byteOf i }
  | .jump d => { op := 6, disp := d.val }
  | .syscall c => { op := 7, call := byteOf c }

/-- Why numbers do not make an instruction. -/
inductive FieldError where
  | unknownOpcode (op : UInt8)
  | registerRange
  | immediateRange (imm : UInt8) (bits : Nat)
  | displacementRange (d : Int)
  | unknownSyscall (call : UInt8)
deriving DecidableEq

/-- The text of a field error. -/
def FieldError.message : FieldError → Text
  | unknownOpcode op => utf8 "unknown opcode: " ++ Text.decimal op.toNat
  | registerRange => utf8 "register out of range"
  | immediateRange imm bits =>
    utf8 "immediate out of range: " ++ Text.decimal imm.toNat ++ utf8 " does not fit " ++
      Text.decimal bits ++ (if bits = 1 then utf8 " bit" else utf8 " bits")
  | displacementRange d =>
    utf8 "displacement out of range: " ++ Text.signedDecimal d ++ utf8 " not in " ++
      Displacement.boundsText
  | unknownSyscall call => utf8 "unknown syscall: " ++ Text.decimal call.toNat

namespace Fields

/-- The two registers of a register-format instruction. -/
def registers (f : Fields) : Except FieldError (Register × Register) :=
  match Register.ofCode? f.reg1, Register.ofCode? f.reg2 with
  | some r, some s => .ok (r, s)
  | _, _ => .error .registerRange

/-- The register of an immediate-format instruction. -/
def register (f : Fields) : Except FieldError Register :=
  match Register.ofCode? f.reg1 with
  | some r => .ok r
  | none => .error .registerRange

/-- The immediate, if it fits the given number of bits. -/
def immediate (f : Fields) (bits : Nat) : Except FieldError (Fin (Nat.pow 2 bits)) :=
  if h : f.imm.toNat < Nat.pow 2 bits then .ok ⟨f.imm.toNat, h⟩
  else .error (.immediateRange f.imm bits)

/-- The displacement, if a jump can cover it. -/
def displacement (f : Fields) : Except FieldError Displacement :=
  match Displacement.ofInt? f.disp with
  | some d => .ok d
  | none => .error (.displacementRange f.disp)

/-- The system call, if it is assigned. -/
def systemCall (f : Fields) : Except FieldError Syscall :=
  match Syscall.ofCode? f.call with
  | some s => .ok s
  | none => .error (.unknownSyscall f.call)

/-- A register-format instruction made by `build`. -/
def registerForm (f : Fields) (build : Register → Register → Fin 2 → Instruction) :
    Except FieldError Instruction := do
  let (r, s) ← f.registers
  let i ← f.immediate 1
  return build r s i

/-- An immediate-format instruction made by `build`. -/
def immediateForm (f : Fields) (build : Register → Fin 8 → Instruction) :
    Except FieldError Instruction := do
  let r ← f.register
  let i ← f.immediate 3
  return build r i

end Fields

/-- The two-bit number of a system call. -/
def Syscall.id : Syscall → Fin 4
  | .print => 0
  | .read => 1
  | .terminate => 2

/-- The instruction that the numbers describe, or the first thing wrong with them. -/
def Fields.check (f : Fields) : Except FieldError Instruction :=
  match Opcode.ofCode? f.op with
  | none => .error (.unknownOpcode f.op)
  | some .add => f.registerForm .add
  | some .sub => f.registerForm .sub
  | some .ifeq => f.registerForm .ifeq
  | some .addi => f.immediateForm .addi
  | some .subi => f.immediateForm .subi
  | some .li => f.immediateForm .li
  | some .jump => f.displacement.map .jump
  | some .syscall => f.systemCall.map fun s => .syscall s.id

end Glyph8
