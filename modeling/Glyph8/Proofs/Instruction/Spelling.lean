import Glyph8.Assembly.Operand
import Glyph8.Proofs.Assembly.Encoding
import Glyph8.Proofs.Text.Words

/-!
# Printed instructions are read back

A listing prints an instruction as a source line: the symbol of the opcode and its operands, with
blanks between them. This module shows that the assembler reads such a line as the instruction it
was printed from, at any position and with any labels.

The argument has three parts. `Instruction.spelling` gives the tokens as lists of characters, and
`source_eq` says that the printed form is these tokens, spaced. Each of them is a token
(`isToken_of_mem_spelling`): not empty, without blanks and without the sign that begins a comment,
so that splitting the line gives them back (`statement_source`). Last, each token is read as the
operand it was printed for: symbols by their first character, immediates and displacements as
decimal numbers. A printed displacement is always a number, which is why the labels do not matter.

The one exception is a system call with the unassigned number. It is printed with a question mark,
which spells no system call, so its line is refused (`ofTokens_unassigned`). Every other instruction
is read back (`ofTokens_spelling`).
-/

namespace Glyph8

/-! ## Numbers as characters -/

namespace Text

/-- The characters of an integer in decimal. -/
def signedDigits : Int → List Char
  | .ofNat n => Nat.toDigits 10 n
  | .negSucc n => '-' :: Nat.toDigits 10 (n + 1)

/-- A decimal number is one byte for each digit. -/
theorem decimal_eq_ofChars (n : Nat) : decimal n = ofChars (Nat.toDigits 10 n) := by
  refine (List.map_eq_flatMap ..).trans (List.flatMap_congr ?_)
  intro c hc
  have hdigit := toNat_asciiByte_of_isDigit (isDigit_of_mem_toDigits hc)
  rw [utf8EncodeChar_of_ascii (by omega)]
  rfl

/-- A decimal number with its sign, as characters. -/
theorem signedDecimal_eq_ofChars (d : Int) : signedDecimal d = ofChars (signedDigits d) := by
  cases d with
  | ofNat n => exact decimal_eq_ofChars n
  | negSucc n =>
    show utf8 "-" ++ decimal (n + 1) = String.utf8EncodeChar '-' ++ ofChars _
    rw [decimal_eq_ofChars]
    rfl

/-- Digits and signs are no blanks and begin no comment. -/
theorem isToken_of_digits {cs : List Char} (hne : cs ≠ [])
    (h : ∀ c ∈ cs, c = '-' ∨ c.isDigit = true) : IsToken cs := by
  -- all blanks and the comment sign are below the minus sign or above the digits
  have hrange : ∀ c ∈ cs, 0x2D ≤ c.toNat ∧ c.toNat ≤ 0x39 := by
    intro c hc
    rcases h c hc with rfl | hdigit
    · decide
    · have := toNat_asciiByte_of_isDigit hdigit
      omega
  refine ⟨hne, ?_, ?_⟩
  · intro c hc
    have := hrange c hc
    simp only [isBlankChar, Bool.or_eq_false_iff, Bool.and_eq_false_iff, decide_eq_false_iff_not,
      beq_eq_false_iff_ne]
    omega
  · intro hc
    have := hrange '#' hc
    revert this
    decide

theorem isToken_toDigits (n : Nat) : IsToken (Nat.toDigits 10 n) :=
  isToken_of_digits Nat.toDigits_ne_nil fun _ hc => .inr (isDigit_of_mem_toDigits hc)

theorem isToken_signedDigits (d : Int) : IsToken (signedDigits d) := by
  cases d with
  | ofNat n => exact isToken_toDigits n
  | negSucc n =>
    refine isToken_of_digits (List.cons_ne_nil _ _) ?_
    intro c hc
    rcases List.mem_cons.mp hc with hc | hc
    · exact .inl hc
    · exact .inr (isDigit_of_mem_toDigits hc)

end Text

/-! ## Tokens of an instruction -/

namespace Instruction

/-- The operands of an instruction as it is printed. -/
def operandSpelling : Instruction → List (List Char)
  | .add r s i | .sub r s i | .ifeq r s i => [[r.symbol], [s.symbol], Nat.toDigits 10 i]
  | .addi r i | .subi r i | .li r i => [[r.symbol], Nat.toDigits 10 i]
  | .jump d => [Text.signedDigits d.val]
  | .syscall id => [match Syscall.ofCode? (byteOf id) with | some s => [s.symbol] | none => ['?']]

/-- The tokens of an instruction as it is printed. -/
def spelling (i : Instruction) : List (List Char) := [i.opcode.symbol] :: i.operandSpelling

theorem symbolOf_code (r : Register) : Register.symbolOf r.code = Text.ofChars [r.symbol] := by
  cases r <;> rfl

/-- The source form is the text of the tokens. -/
theorem source_eq (i : Instruction) : i.source = spaced (i.spelling.map Text.ofChars) := by
  cases i with
  | add r s i | sub r s i | ifeq r s i =>
    show spaced [_, Register.symbolOf r.code, Register.symbolOf s.code,
      Text.decimal (byteOf i).toNat] = _
    rw [symbolOf_code, symbolOf_code, toNat_byteOf (by decide), Text.decimal_eq_ofChars]
    rfl
  | addi r i | subi r i | li r i =>
    show spaced [_, Register.symbolOf r.code, Text.decimal (byteOf i).toNat] = _
    rw [symbolOf_code, toNat_byteOf (by decide), Text.decimal_eq_ofChars]
    rfl
  | jump d =>
    show spaced [_, Text.signedDecimal d.val] = _
    rw [Text.signedDecimal_eq_ofChars]
    rfl
  | syscall id =>
    revert id
    decide

theorem isToken_opcode (o : Opcode) : IsToken [o.symbol] := by
  cases o <;> exact isToken_singleton (by decide) (by decide)

theorem isToken_register (r : Register) : IsToken [r.symbol] := by
  cases r <;> exact isToken_singleton (by decide) (by decide)

/-- The operand of a system call is one token, also if it is a question mark. -/
theorem isToken_syscall (id : Fin 4) :
    ∀ t ∈ (Instruction.syscall id).operandSpelling, IsToken t := by
  intro t ht
  rw [List.mem_singleton.mp ht]
  cases Syscall.ofCode? (byteOf id) with
  | none => exact isToken_singleton (by decide) (by decide)
  | some s => cases s <;> exact isToken_singleton (by decide) (by decide)

/-- Every part of a printed instruction is a token. -/
theorem isToken_of_mem_spelling (i : Instruction) : ∀ t ∈ i.spelling, IsToken t := by
  rw [spelling, List.forall_mem_cons]
  refine ⟨isToken_opcode _, ?_⟩
  cases i with
  | add r s i | sub r s i | ifeq r s i =>
    simp only [operandSpelling, List.forall_mem_cons]
    exact ⟨isToken_register r, isToken_register s, Text.isToken_toDigits i, nofun⟩
  | addi r i | subi r i | li r i =>
    simp only [operandSpelling, List.forall_mem_cons]
    exact ⟨isToken_register r, Text.isToken_toDigits i, nofun⟩
  | jump d =>
    simp only [operandSpelling, List.forall_mem_cons]
    exact ⟨Text.isToken_signedDigits d.val, nofun⟩
  | syscall id => exact isToken_syscall id

/-- The line of a printed instruction is an instruction line with its tokens. -/
theorem statement_source (i : Instruction) (num : Int) :
    Line.statement ⟨num, i.source⟩ =
      .instruction (Text.ofChars [i.opcode.symbol]) (i.operandSpelling.map Text.ofChars) := by
  have htokens : Line.tokens i.source = i.spelling.map Text.ofChars := by
    rw [source_eq, tokens_spaced i.isToken_of_mem_spelling]
  unfold Line.statement
  rw [htokens]
  -- there is always an operand, so the line cannot be a label
  cases i <;> rfl

end Instruction

/-! ## Reading the tokens back -/

@[simp] theorem leading?_ofChars_singleton (c : Char) :
    (Text.ofChars [c]).leading? = some (.scalar c) := by
  unfold Text.leading?
  rw [Text.runes_ofChars]
  rfl

theorem Opcode.ofToken?_symbol (o : Opcode) : ofToken? (Text.ofChars [o.symbol]) = some o := by
  unfold ofToken?
  rw [leading?_ofChars_singleton]
  cases o <;> decide

theorem Register.ofToken?_symbol (r : Register) : ofToken? (Text.ofChars [r.symbol]) = some r := by
  unfold ofToken?
  rw [leading?_ofChars_singleton]
  cases r <;> decide

theorem Syscall.ofToken?_symbol (s : Syscall) : ofToken? (Text.ofChars [s.symbol]) = some s := by
  unfold ofToken?
  rw [leading?_ofChars_singleton]
  cases s <;> decide

namespace Operand

theorem register_symbol (place : RegisterPlace) (r : Register) :
    register place (Text.ofChars [r.symbol]) = .ok r := by
  unfold register
  rw [r.ofToken?_symbol]

/-- An immediate in decimal is read back, if it fits into the bits that it is read for. -/
theorem immediate_toDigits (bits : Nat) (hbits : Nat.pow 2 bits ≤ 256)
    (i : Fin (Nat.pow 2 bits)) :
    immediate bits (Text.ofChars (Nat.toDigits 10 i)) = .ok i := by
  have hbyte := Text.byte?_decimal (byteOf i)
  rw [toNat_byteOf hbits, Text.decimal_eq_ofChars] at hbyte
  unfold immediate
  rw [hbyte]
  simp only [toNat_byteOf hbits, i.isLt, dif_pos]

/-- A displacement in decimal is read back; a number is no label. -/
theorem displacement_signedDigits (symbols : SymbolTable) (distanceTo : Nat → Int)
    (d : Displacement) :
    displacement symbols distanceTo (Text.ofChars (Text.signedDigits d.val)) = .ok d := by
  have hbounds := d.bounds
  have hliteral : jumpLiteral? (Text.ofChars (Text.signedDigits d.val)) = some d.val := by
    unfold jumpLiteral?
    rw [← Text.signedDecimal_eq_ofChars]
    exact Text.integer?_signedDecimal (by unfold Text.minInt64; omega)
      (by unfold Text.maxInt64; omega)
  have hd : Displacement.ofInt? d.val = some d := Displacement.ofInt?_eq_some_iff.mpr rfl
  unfold displacement
  simp only [hliteral, hd]

end Operand

namespace Instruction

variable (symbols : SymbolTable) (pc : Nat)

/-- The tokens of an instruction spell it. -/
theorem ofTokens_spelling {i : Instruction} (h : i.isAssigned = true) :
    ofTokens symbols pc (Text.ofChars [i.opcode.symbol]) (i.operandSpelling.map Text.ofChars) =
      .ok i := by
  unfold ofTokens read
  rw [Opcode.ofToken?_symbol]
  cases i with
  | add r s k | sub r s k | ifeq r s k =>
    have hk := Operand.immediate_toDigits 1 (by decide) k
    exact registerForm_eq_ok_iff.mpr ⟨_, _, _, r, s, k, rfl, Operand.register_symbol .first r,
      Operand.register_symbol .second s, hk, rfl⟩
  | addi r k | subi r k | li r k =>
    have hk := Operand.immediate_toDigits 3 (by decide) k
    exact immediateForm_eq_ok_iff.mpr ⟨_, _, r, k, rfl, Operand.register_symbol .only r, hk, rfl⟩
  | jump d =>
    exact map_eq_ok_iff.mpr ⟨d, Operand.displacement_signedDigits symbols _ d, rfl⟩
  | syscall id =>
    -- an assigned number is that of a call, which has a symbol to be printed and read by
    obtain ⟨s, hs⟩ := Option.isSome_iff_exists.mp h
    have hcall : Operand.systemCall (Text.ofChars [s.symbol]) = .ok s := by
      unfold Operand.systemCall
      rw [s.ofToken?_symbol]
    simp only [operandSpelling, hs]
    exact map_eq_ok_iff.mpr ⟨s, hcall, by rw [Syscall.id_of_ofCode? hs]⟩

/-- The question mark of the unassigned system call spells none. -/
theorem ofTokens_unassigned {i : Instruction} (h : i.isAssigned = false) :
    ofTokens symbols pc (Text.ofChars [i.opcode.symbol]) (i.operandSpelling.map Text.ofChars) =
      .error (.unknownSyscall unassigned) := by
  unfold ofTokens read
  rw [Opcode.ofToken?_symbol]
  cases i with
  | add | sub | ifeq | addi | subi | li | jump => cases h
  | syscall id =>
    have hnone := Option.isSome_eq_false_iff.mp h
    simp only [operandSpelling, Option.isNone_iff_eq_none.mp hnone]
    rfl

end Instruction

end Glyph8
