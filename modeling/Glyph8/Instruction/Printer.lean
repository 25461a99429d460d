import Glyph8.Instruction.Word

/-!
# Printed instructions

An instruction is printed in source form, with emoji, or as a mnemonic, with ASCII names. Both are
defined for arbitrary numbers, so that a message can show what is wrong.
-/

namespace Glyph8

/-- Texts separated by single spaces. -/
def spaced (ts : List Text) : Text := Text.joinWith Text.space ts

namespace Fields

/-- The source form, such as `💘 🍩 🍊 1`. -/
def source (f : Fields) : Text :=
  match Opcode.formatOf f.op with
  | .register =>
    spaced [Opcode.symbolOf f.op, Register.symbolOf f.reg1, Register.symbolOf f.reg2,
      Text.decimal f.imm.toNat]
  | .immediate =>
    spaced [Opcode.symbolOf f.op, Register.symbolOf f.reg1, Text.decimal f.imm.toNat]
  | .jump => spaced [Opcode.symbolOf f.op, Text.signedDecimal f.disp]
  | .syscall => spaced [Opcode.symbolOf f.op, Syscall.symbolOf f.call]

/-- The mnemonic, such as `add r1 r4 1`. A displacement always has its sign. -/
def mnemonic (f : Fields) : Text :=
  match Opcode.formatOf f.op with
  | .register =>
    spaced [Opcode.nameOf f.op, Register.nameOf f.reg1, Register.nameOf f.reg2,
      Text.decimal f.imm.toNat]
  | .immediate => spaced [Opcode.nameOf f.op, Register.nameOf f.reg1, Text.decimal f.imm.toNat]
  | .jump => spaced [Opcode.nameOf f.op, Text.plusDecimal f.disp]
  | .syscall => spaced [Opcode.nameOf f.op, Syscall.nameOf f.call]

end Fields

/-- The source form of an instruction. -/
def Instruction.source (i : Instruction) : Text := i.fields.source

/-- The mnemonic of an instruction. -/
def Instruction.mnemonic (i : Instruction) : Text := i.fields.mnemonic

end Glyph8
