import Glyph8.Instruction.Basic

/-!
# Words

A word is one byte: the opcode in the upper three bits and the operands in the lower five. A jump's
displacement is a sign bit and a four-bit magnitude, so zero has two spellings; a system call uses
two of its five bits.

Every byte decodes to an instruction (`Word.decode`), so there is no error in decoding. Encoding
goes the other way, from instructions that are in range by construction (`Instruction.word`), and
has no error either; numbers that are not in range are refused before (`Fields.encode`).

Both directions are written with shifts and masks, as a byte is taken apart and put together. That
they fit together is left to proofs.
-/

namespace Glyph8

/-- One encoded instruction. -/
abbrev Word := UInt8

namespace Displacement

/-- The operand bits of a displacement. -/
def field (d : Displacement) : UInt8 :=
  if d.val < 0 then 0x10 ||| (-d.val).toNat.toUInt8 else d.val.toNat.toUInt8

/-- The magnitude in the operand bits. -/
def magnitude (field : UInt8) : Nat := (field &&& 0x0F).toNat

/-- A magnitude has four bits. -/
theorem magnitude_le (field : UInt8) : magnitude field ≤ 15 := by
  unfold magnitude
  rw [UInt8.toNat_and]
  exact Nat.and_le_right

/-- The displacement in the operand bits; a negative zero is zero. -/
def ofField (field : UInt8) : Displacement :=
  if field &&& 0x10 = 0 then ⟨magnitude field, by have := magnitude_le field; omega⟩
  else ⟨-(magnitude field : Int), by have := magnitude_le field; omega⟩

end Displacement

/-- The register in the two lowest bits. -/
def Register.ofBits (b : UInt8) : Register :=
  if b &&& 3 = 0 then .r1
  else if b &&& 3 = 1 then .r2
  else if b &&& 3 = 2 then .r3
  else .r4

/-- The lowest `bits` bits of a byte, as a number. -/
def lowBits (bits : Nat) (b : UInt8) : Fin (Nat.pow 2 bits) :=
  ⟨b.toNat % Nat.pow 2 bits, Nat.mod_lt _ (Nat.two_pow_pos bits)⟩

namespace Word

/-- The opcode in the upper three bits. -/
def opcode (w : Word) : Opcode :=
  let n := w >>> 5
  if n = 0 then .add
  else if n = 1 then .sub
  else if n = 2 then .ifeq
  else if n = 3 then .addi
  else if n = 4 then .subi
  else if n = 5 then .li
  else if n = 6 then .jump
  else .syscall

/-- The lower five bits. -/
def operand (w : Word) : UInt8 := w &&& 0x1F

/-- A word from its opcode and operand bits. -/
def pack (o : Opcode) (operand : UInt8) : Word := o.code <<< 5 ||| operand

/-- The instruction in a word. Every word holds one. -/
def decode (w : Word) : Instruction :=
  let first := Register.ofBits (operand w >>> 3)
  let second := Register.ofBits (operand w >>> 1)
  match opcode w with
  | .add => .add first second (lowBits 1 (operand w))
  | .sub => .sub first second (lowBits 1 (operand w))
  | .ifeq => .ifeq first second (lowBits 1 (operand w))
  | .addi => .addi first (lowBits 3 (operand w))
  | .subi => .subi first (lowBits 3 (operand w))
  | .li => .li first (lowBits 3 (operand w))
  | .jump => .jump (Displacement.ofField (operand w))
  | .syscall => .syscall (lowBits 2 (operand w))

/-- A word in binary. -/
def bits (w : Word) : Text := utf8 "0b" ++ Text.binary8 w

end Word

/-- The operand bits of two registers and a one-bit immediate. -/
def registerOperand (r s : Register) (i : Fin 2) : UInt8 :=
  r.code <<< 3 ||| s.code <<< 1 ||| byteOf i

/-- The operand bits of a register and a three-bit immediate. -/
def immediateOperand (r : Register) (i : Fin 8) : UInt8 :=
  r.code <<< 3 ||| byteOf i

/-- The word of an instruction. -/
def Instruction.word : Instruction → Word
  | .add r s i => Word.pack .add (registerOperand r s i)
  | .sub r s i => Word.pack .sub (registerOperand r s i)
  | .ifeq r s i => Word.pack .ifeq (registerOperand r s i)
  | .addi r i => Word.pack .addi (immediateOperand r i)
  | .subi r i => Word.pack .subi (immediateOperand r i)
  | .li r i => Word.pack .li (immediateOperand r i)
  | .jump d => Word.pack .jump d.field
  | .syscall c => Word.pack .syscall (byteOf c)

/-- The word that the numbers describe, or the first thing wrong with them. -/
def Fields.encode (f : Fields) : Except FieldError Word :=
  f.check.map Instruction.word

end Glyph8
