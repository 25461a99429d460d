import Glyph8.Assembly.SymbolTable
import Glyph8.Instruction.Word

/-!
# Operands

The second pass reads the tokens of an instruction line as an instruction. A line's own position and
the symbol table are needed for jumps to labels.

There are four forms of operands: two registers and a bit, a register and three bits, a
displacement, and a system call. Each has one reader, and an opcode is that reader applied to the
opcode's own values. Operands are read from left to right, after they have been counted, and the
first that is wrong is reported.

A displacement that is written as a number is taken as it is. Otherwise it is the distance from the
jump to the label. How positions make a distance is a parameter (`distanceTo`): it is their
difference for programs that are assembled, whose positions are counted from one, and a difference
that wraps around for a caller that keeps positions in 64 bits (`wrappedDistance`). The two are the
same for positions that a program can have.
-/

namespace Glyph8

namespace Operand

/-- A register operand. -/
def register (place : RegisterPlace) (token : Text) : Except Fault Register :=
  match Register.ofToken? token with
  | some r => .ok r
  | none => .error (.unknownRegister place token)

/-- An immediate operand of the given number of bits. -/
def immediate (bits : Nat) (token : Text) : Except Fault (Fin (Nat.pow 2 bits)) :=
  match token.byte? with
  | none => .error (.malformedImmediate token)
  | some b =>
    if h : b.toNat < Nat.pow 2 bits then .ok ⟨b.toNat, h⟩
    else .error (.immediateRange b.toNat (Nat.pow 2 bits - 1))

/-- The distance from one position to another. -/
def distance (start target : Nat) : Int := (target : Int) - start

/-- The distance between positions that are kept in 64 bits: their signed difference, which wraps
around. -/
def wrappedDistance (start target : Nat) : Int := (distance start target).bmod UInt64.size

/-- The displacement of a jump: a number, or the distance to a label. `distanceTo` gives the
distance from the jump to a position. -/
def displacement (symbols : SymbolTable) (distanceTo : Nat → Int) (token : Text) :
    Except Fault Displacement :=
  match jumpLiteral? token with
  | some d =>
    match Displacement.ofInt? d with
    | some d => .ok d
    | none => .error (.literalRange token)
  | none =>
    match symbols.find? token with
    | none => .error (.undefinedLabel token)
    | some target =>
      match Displacement.ofInt? (distanceTo target) with
      | some d => .ok d
      | none => .error (.labelRange (distanceTo target) token)

/-- A system call operand. -/
def systemCall (token : Text) : Except Fault Syscall :=
  match Syscall.ofToken? token with
  | some s => .ok s
  | none => .error (.unknownSyscall token)

/-- The operands of a register-format instruction. -/
def registerForm (op : Opcode) (build : Register → Register → Fin 2 → Instruction) :
    List Text → Except Fault Instruction
  | [a, b, c] => do
    let r ← register .first a
    let s ← register .second b
    let i ← immediate 1 c
    return build r s i
  | operands => .error (.operandCount op operands.length)

/-- The operands of an immediate-format instruction. -/
def immediateForm (op : Opcode) (build : Register → Fin 8 → Instruction) :
    List Text → Except Fault Instruction
  | [a, b] => do
    let r ← register .only a
    let i ← immediate 3 b
    return build r i
  | operands => .error (.operandCount op operands.length)

/-- The only operand of an instruction, read by `read`. -/
def single {α : Type} (op : Opcode) (read : Text → Except Fault α) : List Text → Except Fault α
  | [a] => read a
  | operands => .error (.operandCount op operands.length)

end Operand

/-- The instruction that an opcode token and its operands spell, where `distanceTo` gives the
distance to a position. -/
def Instruction.read (symbols : SymbolTable) (distanceTo : Nat → Int) (head : Text)
    (operands : List Text) : Except Fault Instruction :=
  match Opcode.ofToken? head with
  | none => .error (.unknownOpcode head)
  | some .add => Operand.registerForm .add .add operands
  | some .sub => Operand.registerForm .sub .sub operands
  | some .ifeq => Operand.registerForm .ifeq .ifeq operands
  | some .addi => Operand.immediateForm .addi .addi operands
  | some .subi => Operand.immediateForm .subi .subi operands
  | some .li => Operand.immediateForm .li .li operands
  | some .jump =>
    (Operand.single .jump (Operand.displacement symbols distanceTo) operands).map .jump
  | some .syscall =>
    (Operand.single .syscall Operand.systemCall operands).map fun s => .syscall s.id

/-- The instruction that an opcode token and its operands spell at position `pc`. -/
def Instruction.ofTokens (symbols : SymbolTable) (pc : Nat) (head : Text) (operands : List Text) :
    Except Fault Instruction :=
  Instruction.read symbols (Operand.distance pc) head operands

end Glyph8
