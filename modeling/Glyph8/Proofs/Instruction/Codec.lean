import Glyph8.Instruction.Word

/-!
# Words and instructions

An instruction is packed into a byte: three bits of opcode above five bits of operands. Reading the
byte undoes that (`decode_word`). The proof goes through the operand fields: each kind of operand is
smaller than 32, so it does not touch the opcode (`opcode_operand_pack`), and each gives its parts
back by shifting and masking. These are facts about a handful of small types and are checked by
running through them; `forall_byte` does the same for a property of bytes.

A displacement is kept as sign and magnitude, so it has two spellings of zero. `exists_magnitude` is
the only place that looks at the sign.

The converse of `decode_word` fails for two kinds of words: a jump by negative zero, and a system
call with unused bits set. `Word.canonical` clears both, and `word_decode` says that encoding a
decoded word does just that. So decoding forgets nothing else.

One number of a system call has no meaning. `Instruction.isAssigned` and `Word.isUnassigned` say so
on both sides; every instruction that can be written in a source text is assigned.

The last section is about the printed bits of a word, which the listing and the dump show.
-/

namespace Glyph8

/-- A property of bytes that holds for each of the 256 bytes. -/
theorem forall_byte {P : UInt8 → Prop} (h : ∀ n : Fin 256, P (UInt8.ofFin n)) (b : UInt8) : P b :=
  h b.toFin

/-! ## Operand fields -/

namespace Displacement

/-- A displacement is its value; the bounds are a proof. -/
theorem ext_val {d e : Displacement} (h : d.val = e.val) : d = e := by
  cases d
  cases e
  cases h
  rfl

/-- A number is taken as a displacement exactly if some displacement has this value. -/
theorem ofInt?_eq_some_iff {v : Int} {d : Displacement} : ofInt? v = some d ↔ d.val = v := by
  unfold ofInt?
  constructor
  · intro h
    split at h
    · exact Option.some.inj h ▸ rfl
    · cases h
  · rintro rfl
    rw [dif_pos d.bounds]

/-- A magnitude of four bits is read back beside either sign. -/
theorem val_ofField :
    ∀ n : Fin 16, (ofField n.val.toUInt8).val = n.val ∧
      (ofField (0x10 ||| n.val.toUInt8)).val = -(n.val : Int) := by
  decide

/-- A displacement is a magnitude of four bits with or without the bit of the sign. -/
theorem exists_magnitude (d : Displacement) :
    ∃ n : Fin 16, (d.val = n.val ∧ d.field = n.val.toUInt8) ∨
      (d.val = -(n.val : Int) ∧ d.field = 0x10 ||| n.val.toUInt8) := by
  obtain ⟨hlo, hhi⟩ := d.bounds
  by_cases hneg : d.val < 0
  · refine ⟨⟨(-d.val).toNat, by omega⟩, Or.inr ⟨?_, ?_⟩⟩
    · show d.val = -((-d.val).toNat : Int)
      omega
    · rw [field, if_pos hneg]
  · refine ⟨⟨d.val.toNat, by omega⟩, Or.inl ⟨?_, ?_⟩⟩
    · show d.val = (d.val.toNat : Int)
      omega
    · rw [field, if_neg hneg]

/-- A displacement is read back from its field. Zero has one of the two spellings that a field
allows. -/
theorem ofField_field (d : Displacement) : ofField d.field = d := by
  obtain ⟨n, ⟨hval, hfield⟩ | ⟨hval, hfield⟩⟩ := d.exists_magnitude
  · exact ext_val (by rw [hfield, hval]; exact (val_ofField n).1)
  · exact ext_val (by rw [hfield, hval]; exact (val_ofField n).2)

/-- The field of a displacement leaves the bits of the opcode alone. -/
theorem field_lt (d : Displacement) : d.field < 32 := by
  have hall : ∀ n : Fin 16, n.val.toUInt8 < 32 ∧ 0x10 ||| n.val.toUInt8 < 32 := by decide
  obtain ⟨n, ⟨_, hfield⟩ | ⟨_, hfield⟩⟩ := d.exists_magnitude
  · exact hfield ▸ (hall n).1
  · exact hfield ▸ (hall n).2

end Displacement

theorem registerOperand_lt (r s : Register) (i : Fin 2) : registerOperand r s i < 32 := by
  revert i
  cases r <;> cases s <;> decide

theorem immediateOperand_lt (r : Register) (i : Fin 8) : immediateOperand r i < 32 := by
  revert i
  cases r <;> decide

/-- The three operands of a register-format instruction. -/
theorem registerOperand_fields (r s : Register) (i : Fin 2) :
    Register.ofBits (registerOperand r s i >>> 3) = r ∧
      Register.ofBits (registerOperand r s i >>> 1) = s ∧
        lowBits 1 (registerOperand r s i) = i := by
  revert i
  cases r <;> cases s <;> decide

/-- The two operands of an immediate-format instruction. -/
theorem immediateOperand_fields (r : Register) (i : Fin 8) :
    Register.ofBits (immediateOperand r i >>> 3) = r ∧ lowBits 3 (immediateOperand r i) = i := by
  revert i
  cases r <;> decide

/-- The number of a system call fits into the operand bits and is read back from them. -/
theorem syscallOperand_field (c : Fin 4) : byteOf c < 32 ∧ lowBits 2 (byteOf c) = c := by
  revert c
  decide

/-- No small number is cut off when it is made a byte. -/
theorem toNat_byteOf {n : Nat} (hn : n ≤ 256) (i : Fin n) : (byteOf i).toNat = i := by
  show (UInt8.ofNat i.val).toNat = i
  rw [UInt8.toNat_ofNat']
  omega

theorem Syscall.ofCode?_id (s : Syscall) : ofCode? (byteOf s.id) = some s := by
  cases s <;> rfl

/-- A system call is the only one with its number. -/
theorem Syscall.id_of_ofCode? {id : Fin 4} {s : Syscall} (h : ofCode? (byteOf id) = some s) :
    s.id = id := by
  revert id
  cases s <;> decide

/-! ## Words -/

/-- The opcode of an instruction. -/
def Instruction.opcode : Instruction → Opcode
  | .add _ _ _ => .add
  | .sub _ _ _ => .sub
  | .ifeq _ _ _ => .ifeq
  | .addi _ _ => .addi
  | .subi _ _ => .subi
  | .li _ _ => .li
  | .jump _ => .jump
  | .syscall _ => .syscall

/-- Opcode and operand bits do not overlap. -/
theorem opcode_operand_pack (o : Opcode) (f : UInt8) (h : f < 32) :
    Word.opcode (Word.pack o f) = o ∧ Word.operand (Word.pack o f) = f := by
  revert f
  refine forall_byte ?_
  cases o <;> decide +kernel

/-- An instruction is read back from its word. -/
@[simp] theorem decode_word (i : Instruction) : Word.decode i.word = i := by
  cases i with
  | add r s i | sub r s i | ifeq r s i =>
    have hpack := fun o => opcode_operand_pack o _ (registerOperand_lt r s i)
    simp only [Word.decode, Instruction.word, hpack, registerOperand_fields]
  | addi r i | subi r i | li r i =>
    have hpack := fun o => opcode_operand_pack o _ (immediateOperand_lt r i)
    simp only [Word.decode, Instruction.word, hpack, immediateOperand_fields]
  | jump d =>
    obtain ⟨hop, hoperand⟩ := opcode_operand_pack .jump _ d.field_lt
    simp only [Word.decode, Instruction.word, hop, hoperand, d.ofField_field]
  | syscall c =>
    obtain ⟨hlt, hbits⟩ := syscallOperand_field c
    obtain ⟨hop, hoperand⟩ := opcode_operand_pack .syscall _ hlt
    simp only [Word.decode, Instruction.word, hop, hoperand, hbits]

namespace Word

/-- The spelling of a word that encoding produces: a jump by negative zero is a jump by zero, and
the unused bits of a system call are clear. -/
def canonical (w : Word) : Word :=
  if w = 0xD0 then 0xC0
  else if w >>> 5 = 7 then 0xE0 ||| (w &&& 0x03)
  else w

end Word

/-- Encoding a decoded word changes nothing but the bits that decoding does not look at. -/
theorem word_decode (w : Word) : (Word.decode w).word = w.canonical := by
  revert w
  refine forall_byte ?_
  decide +kernel

/-- The canonical word stands for the same instruction. -/
theorem decode_canonical (w : Word) : Word.decode w.canonical = Word.decode w := by
  rw [← word_decode, decode_word]

/-! ## Unassigned system calls -/

/-- Whether the instruction is not the system call with the unassigned number. -/
def Instruction.isAssigned : Instruction → Bool
  | .syscall id => (Syscall.ofCode? (byteOf id)).isSome
  | _ => true

/-- Whether a word is a system call with the number that is unassigned. -/
def Word.isUnassigned (w : Word) : Bool := w >>> 5 == 7 && w &&& 3 == 3

/-- The unassigned system call can be told from the bits of the word. -/
theorem isAssigned_decode (w : Word) : (Word.decode w).isAssigned = !w.isUnassigned := by
  revert w
  refine forall_byte ?_
  decide +kernel

/-! ## Words in binary -/

namespace Word

/-- The eight bits of a word as digits, the highest bit first. -/
def bitDigits (w : Word) : Text :=
  (List.range 8).map fun k => if w.toNat.testBit (7 - k) then 0x31 else 0x30

/-- The word that binary digits after a mark of two bytes stand for. -/
def ofBits (t : Text) : Word :=
  ((t.drop 2).foldl (fun n b => 2 * n + Text.digitValue b) 0).toUInt8

/-- The printed bits are those of the word, each in its place. -/
theorem binary8_eq (w : Word) : Text.binary8 w = w.bitDigits := by
  revert w
  refine forall_byte ?_
  decide +kernel

theorem bits_eq (w : Word) : w.bits = utf8 "0b" ++ w.bitDigits := congrArg _ w.binary8_eq

/-- A word is read back from its printed bits. -/
theorem ofBits_bits (w : Word) : ofBits w.bits = w := by
  have hdigits : ∀ w : Word,
      (w.bitDigits.foldl (fun n b => 2 * n + Text.digitValue b) 0).toUInt8 = w := by
    refine forall_byte ?_
    decide +kernel
  rw [bits_eq]
  exact hdigits w

end Word

end Glyph8
