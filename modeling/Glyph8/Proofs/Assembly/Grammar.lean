import Glyph8.Proofs.Assembly.Canonical
import Glyph8.Proofs.Assembly.ErrorOrder
import Glyph8.Proofs.Text.Decimals
import Glyph8.Proofs.Text.Tokens

/-!
# The grammar of instruction lines

What an instruction line may look like, said without reading it. `Spells` says which instruction the
tokens of a line stand for: the first token begins with the symbol of the opcode, and the others
denote the operands. `Rejects` lists what can be wrong with a line, in the order in which it is
looked for, so that only the first fault of a line is reported.

Both are relations, and neither mentions the functions that read tokens. Symbols are told by the
bytes that a token begins with, so further bytes may follow; numbers by `IsDecimal` and `IsInteger`,
so they may have leading zeros and, for a jump, a sign. The shape of the operands depends only on
the format of the opcode, which is why there are four cases and not eight.

The proof has three parts. A line that is spelled is read as the instruction (`ofTokens_of_spells`).
A line that is rejected is refused with that fault (`ofTokens_of_rejects`). And every line is
spelled or rejected (`spells_or_rejects`). As reading a line gives one answer, the two equivalences
follow (`ofTokens_eq_ok_iff`, `ofTokens_eq_error_iff`), and so does the main result,
`encode_follows_grammar`.

Both relations leave open which texts a jump takes for numbers and does not look up as labels. These
are not just the numbers, and with the numbers alone the result does not hold
(`numeral_hides_target`): a label that begins with a number of more than 64 bits is never found.
-/

namespace Glyph8

/-! ## Symbols -/

/-- The text begins with the bytes of a character. -/
def Text.BeginsWith (t : Text) (c : Char) : Prop := String.utf8EncodeChar c <+: t

/-- The first rune of a text is a character exactly if the text begins with its bytes. -/
theorem Text.leading?_eq_scalar_iff {t : Text} {c : Char} :
    t.leading? = some (.scalar c) ↔ t.BeginsWith c := by
  unfold leading? BeginsWith
  constructor
  · intro h
    obtain ⟨rs, hrs⟩ := List.head?_eq_some_iff.mp h
    refine ⟨Rune.encode rs, ?_⟩
    rw [← t.encode_runes, hrs]
    rfl
  · rintro ⟨rest, rfl⟩
    rw [runes_utf8EncodeChar_append]
    rfl

/-- A token spells a letter of an alphabet if and only if it begins with the letter's symbol. -/
theorem spelled_iff {α : Type} {letters : List α} {symbol : α → Char}
    (hletters : ∀ a, (letters.find? fun x => Rune.scalar (symbol x) == .scalar (symbol a)) = some a)
    {t : Text} {a : α} :
    (t.leading?.bind fun r => letters.find? fun x => Rune.scalar (symbol x) == r) = some a ↔
      t.BeginsWith (symbol a) := by
  rw [← Text.leading?_eq_scalar_iff, Option.bind_eq_some_iff]
  constructor
  · rintro ⟨r, hr, ha⟩
    have hsymbol := List.find?_some ha
    rw [hr, eq_of_beq hsymbol]
  · intro h
    exact ⟨_, h, hletters a⟩

/-- A token spells an opcode exactly if it begins with its symbol. -/
theorem Opcode.ofToken?_eq_some_iff {t : Text} {o : Opcode} :
    ofToken? t = some o ↔ t.BeginsWith o.symbol :=
  spelled_iff fun o => by cases o <;> rfl

theorem Register.ofToken?_eq_some_iff {t : Text} {r : Register} :
    ofToken? t = some r ↔ t.BeginsWith r.symbol :=
  spelled_iff fun r => by cases r <;> rfl

/-- A token spells a system call exactly if it begins with its symbol. -/
theorem Syscall.ofToken?_eq_some_iff {t : Text} {s : Syscall} :
    ofToken? t = some s ↔ t.BeginsWith s.symbol :=
  spelled_iff fun s => by cases s <;> rfl

theorem eq_none_of_forall_not {α : Type} {x : Option α} {P : α → Prop}
    (h : ∀ {a}, x = some a ↔ P a) (hnot : ∀ a, ¬P a) : x = none :=
  Option.eq_none_iff_forall_ne_some.mpr fun a ha => hnot a (h.mp ha)

/-! ## The grammar -/

/-- The operands of an instruction. -/
inductive Operands where
  | registers (r s : Register) (k : Fin 2)
  | immediate (r : Register) (k : Fin 8)
  | jump (d : Displacement)
  | syscall (id : Fin 4)

/-- The layout of operands. -/
def Operands.format : Operands → Format
  | .registers _ _ _ => .register
  | .immediate _ _ => .immediate
  | .jump _ => .jump
  | .syscall _ => .syscall

/-- An instruction without its opcode. -/
def Instruction.operands : Instruction → Operands
  | .add r s k | .sub r s k | .ifeq r s k => .registers r s k
  | .addi r k | .subi r k | .li r k => .immediate r k
  | .jump d => .jump d
  | .syscall id => .syscall id

/-- An opcode and operands of its layout make an instruction. -/
theorem exists_instruction (o : Opcode) {x : Operands} (h : x.format = o.format) :
    ∃ i : Instruction, i.opcode = o ∧ i.operands = x := by
  cases x with
  | registers r s k =>
    cases o with
    | add => exact ⟨.add r s k, rfl, rfl⟩
    | sub => exact ⟨.sub r s k, rfl, rfl⟩
    | ifeq => exact ⟨.ifeq r s k, rfl, rfl⟩
    | addi | subi | li | jump | syscall => cases h
  | immediate r k =>
    cases o with
    | addi => exact ⟨.addi r k, rfl, rfl⟩
    | subi => exact ⟨.subi r k, rfl, rfl⟩
    | li => exact ⟨.li r k, rfl, rfl⟩
    | add | sub | ifeq | jump | syscall => cases h
  | jump d =>
    cases o with
    | jump => exact ⟨.jump d, rfl, rfl⟩
    | add | sub | ifeq | addi | subi | li | syscall => cases h
  | syscall id =>
    cases o with
    | syscall => exact ⟨.syscall id, rfl, rfl⟩
    | add | sub | ifeq | addi | subi | li | jump => cases h

section

variable (literal : Text → Prop) (symbols : SymbolTable) (pc : Nat)

/-- The operand of a jump at position `pc` stands for a displacement. -/
inductive JumpsBy (token : Text) : Displacement → Prop
  | number {d : Displacement} (h : token.IsInteger d.val) : JumpsBy token d
  | label {d : Displacement} {target : Nat} (hliteral : ¬literal token)
      (hfind : symbols.find? token = some target) (hd : d.val = (target : Int) - pc) :
      JumpsBy token d

/-- Tokens stand for operands. -/
inductive Denotes : List Text → Operands → Prop
  | registers {a b c : Text} {r s : Register} {k : Fin 2} (ha : a.BeginsWith r.symbol)
      (hb : b.BeginsWith s.symbol) (hc : c.IsDecimal k) : Denotes [a, b, c] (.registers r s k)
  | immediate {a b : Text} {r : Register} {k : Fin 8} (ha : a.BeginsWith r.symbol)
      (hb : b.IsDecimal k) : Denotes [a, b] (.immediate r k)
  | jump {a : Text} {d : Displacement} (ha : JumpsBy literal symbols pc a d) :
      Denotes [a] (.jump d)
  | syscall {a : Text} {s : Syscall} (ha : a.BeginsWith s.symbol) : Denotes [a] (.syscall s.id)

/-- The tokens of a line at position `pc` stand for an instruction. -/
structure Spells (head : Text) (operands : List Text) (i : Instruction) : Prop where
  head : head.BeginsWith i.opcode.symbol
  operands : Denotes literal symbols pc operands i.operands

/-- A token is not an immediate of the given number of bits. A number that is too large is only told
apart from what is no number if it fits a byte. -/
inductive ImmediateFault (bits : Nat) (token : Text) : Fault → Prop
  | malformed (h : ∀ n ≤ 255, ¬token.IsDecimal n) :
      ImmediateFault bits token (.malformedImmediate token)
  | range {n : Nat} (h : token.IsDecimal n) (hlo : Nat.pow 2 bits ≤ n) (hhi : n ≤ 255) :
      ImmediateFault bits token (.immediateRange n (Nat.pow 2 bits - 1))

/-- A token is not the operand of a jump at position `pc`. -/
inductive JumpFault (token : Text) : Fault → Prop
  | number (hliteral : literal token) (hrange : ∀ d : Displacement, ¬token.IsInteger d.val) :
      JumpFault token (.literalRange token)
  | undefined (hliteral : ¬literal token) (hfind : symbols.find? token = none) :
      JumpFault token (.undefinedLabel token)
  | label {target : Nat} (hliteral : ¬literal token) (hfind : symbols.find? token = some target)
      (hrange : ∀ d : Displacement, d.val ≠ (target : Int) - pc) :
      JumpFault token (.labelRange ((target : Int) - pc) token)

/-- The first fault of the operands of an opcode. -/
inductive OperandFault (o : Opcode) : List Text → Fault → Prop
  | count {operands : List Text} (h : operands.length ≠ o.format.arity) :
      OperandFault o operands (.operandCount o operands.length)
  | first {a b c : Text} (ho : o.format = .register) (ha : ∀ r : Register, ¬a.BeginsWith r.symbol) :
      OperandFault o [a, b, c] (.unknownRegister .first a)
  | second {a b c : Text} {r : Register} (ho : o.format = .register) (ha : a.BeginsWith r.symbol)
      (hb : ∀ s : Register, ¬b.BeginsWith s.symbol) :
      OperandFault o [a, b, c] (.unknownRegister .second b)
  | third {a b c : Text} {r s : Register} {fault : Fault} (ho : o.format = .register)
      (ha : a.BeginsWith r.symbol) (hb : b.BeginsWith s.symbol) (hc : ImmediateFault 1 c fault) :
      OperandFault o [a, b, c] fault
  | only {a b : Text} (ho : o.format = .immediate) (ha : ∀ r : Register, ¬a.BeginsWith r.symbol) :
      OperandFault o [a, b] (.unknownRegister .only a)
  | immediate {a b : Text} {r : Register} {fault : Fault} (ho : o.format = .immediate)
      (ha : a.BeginsWith r.symbol) (hb : ImmediateFault 3 b fault) : OperandFault o [a, b] fault
  | jump {a : Text} {fault : Fault} (ho : o.format = .jump)
      (ha : JumpFault literal symbols pc a fault) : OperandFault o [a] fault
  | syscall {a : Text} (ho : o.format = .syscall) (ha : ∀ s : Syscall, ¬a.BeginsWith s.symbol) :
      OperandFault o [a] (.unknownSyscall a)

/-- The first fault of the tokens of a line at position `pc`. -/
inductive Rejects (head : Text) (operands : List Text) : Fault → Prop
  | opcode (h : ∀ o : Opcode, ¬head.BeginsWith o.symbol) :
      Rejects head operands (.unknownOpcode head)
  | operands {o : Opcode} {fault : Fault} (ho : head.BeginsWith o.symbol)
      (h : OperandFault literal symbols pc o operands fault) : Rejects head operands fault

end

/-! ## Single operands -/

namespace Operand

section

variable {place : RegisterPlace} {token : Text} {fault : Fault}

theorem register_of_beginsWith {r : Register} (h : token.BeginsWith r.symbol) :
    register place token = .ok r := by
  unfold register
  rw [Register.ofToken?_eq_some_iff.mpr h]

theorem register_of_unknown (h : ∀ r : Register, ¬token.BeginsWith r.symbol) :
    register place token = .error (.unknownRegister place token) := by
  unfold register
  rw [eq_none_of_forall_not Register.ofToken?_eq_some_iff h]

theorem systemCall_of_beginsWith {s : Syscall} (h : token.BeginsWith s.symbol) :
    systemCall token = .ok s := by
  unfold systemCall
  rw [Syscall.ofToken?_eq_some_iff.mpr h]

theorem systemCall_of_unknown (h : ∀ s : Syscall, ¬token.BeginsWith s.symbol) :
    systemCall token = .error (.unknownSyscall token) := by
  unfold systemCall
  rw [eq_none_of_forall_not Syscall.ofToken?_eq_some_iff h]

variable {bits : Nat} (hbits : Nat.pow 2 bits ≤ 256)

include hbits in
theorem immediate_of_isDecimal {k : Fin (Nat.pow 2 bits)} (h : token.IsDecimal k) :
    immediate bits token = .ok k := by
  have hbyte : token.byte? = some (byteOf k) :=
    Text.byte?_eq_some_iff.mpr (by rw [toNat_byteOf hbits]; exact h)
  unfold immediate
  simp only [hbyte, toNat_byteOf hbits, k.isLt, dif_pos]

/-- What is no immediate is refused, with its value if that is a byte. -/
theorem immediate_of_fault (h : ImmediateFault bits token fault) :
    immediate bits token = .error fault := by
  unfold immediate
  cases h with
  | malformed h => rw [Text.byte?_eq_none_iff.mpr h]
  | @range n h hlo hhi =>
    have hn : (UInt8.ofNat n).toNat = n := by
      rw [UInt8.toNat_ofNat', Nat.mod_eq_of_lt (by omega)]
    simp only [Text.byte?_of_isDecimal h hhi, hn]
    rw [dif_neg (Nat.not_lt.mpr hlo)]

theorem immediate_or_fault (bits : Nat) (token : Text) :
    (∃ k : Fin (Nat.pow 2 bits), token.IsDecimal k) ∨ ∃ fault, ImmediateFault bits token fault := by
  by_cases h : ∃ n ≤ 255, token.IsDecimal n
  · obtain ⟨n, hn, hdecimal⟩ := h
    by_cases hlt : n < Nat.pow 2 bits
    · exact .inl ⟨⟨n, hlt⟩, hdecimal⟩
    · exact .inr ⟨_, .range hdecimal (Nat.le_of_not_lt hlt) hn⟩
  · refine .inr ⟨_, .malformed ?_⟩
    intro n hn hdecimal
    exact h ⟨n, hn, hdecimal⟩

end

/-! ### Jumps -/

section

variable {symbols : SymbolTable} {pc : Nat} {token : Text} {d : Displacement} {fault : Fault}

theorem jumpLiteral?_eq_none (h : ¬token.ReadsAsNumber) : jumpLiteral? token = none := by
  rw [← Option.not_isSome_iff_eq_none]
  exact mt Text.isSome_integer?_iff.mp h

/-- A number in range and a label at such a distance are read as the displacement. -/
theorem displacement_of_jumpsBy (h : JumpsBy Text.ReadsAsNumber symbols pc token d) :
    displacement symbols (Operand.distance pc) token = .ok d := by
  unfold displacement
  cases h with
  | number h =>
    have hnumber : jumpLiteral? token = some d.val :=
      (Text.integer?_eq_small_iff d.bounds.1 d.bounds.2).mpr h
    simp only [hnumber, Displacement.ofInt?_eq_some_iff.mpr (rfl : d.val = d.val)]
  | @label target hliteral hfind hd =>
    have hd : Displacement.ofInt? (distance pc target) = some d :=
      Displacement.ofInt?_eq_some_iff.mpr hd
    simp only [jumpLiteral?_eq_none hliteral, hfind, hd]

/-- What a jump cannot reach is refused: a number, a label, or a token that is neither. -/
theorem displacement_of_fault (h : JumpFault Text.ReadsAsNumber symbols pc token fault) :
    displacement symbols (Operand.distance pc) token = .error fault := by
  unfold displacement
  cases h with
  | number hliteral hrange =>
    obtain ⟨v, hv⟩ := Option.isSome_iff_exists.mp (Text.isSome_integer?_iff.mpr hliteral)
    have hv : jumpLiteral? token = some v := hv
    have hnone : Displacement.ofInt? v = none := by
      refine Option.eq_none_iff_forall_ne_some.mpr ?_
      intro d hd
      have hval := Displacement.ofInt?_eq_some_iff.mp hd
      rw [← hval] at hv
      exact hrange d ((Text.integer?_eq_small_iff d.bounds.1 d.bounds.2).mp hv)
    simp only [hv, hnone]
  | undefined hliteral hfind => simp only [jumpLiteral?_eq_none hliteral, hfind]
  | @label target hliteral hfind hrange =>
    have hnone : Displacement.ofInt? (distance pc target) = none :=
      eq_none_of_forall_not Displacement.ofInt?_eq_some_iff hrange
    simp only [jumpLiteral?_eq_none hliteral, hfind, hnone]
    rfl

/-- The operand of a jump stands for a displacement or has a fault, whatever is taken for a number.
-/
theorem jumpsBy_or_fault (literal : Text → Prop) (symbols : SymbolTable) (pc : Nat)
    (token : Text) :
    (∃ d, JumpsBy literal symbols pc token d) ∨
      ∃ fault, JumpFault literal symbols pc token fault := by
  by_cases hinteger : ∃ d : Displacement, token.IsInteger d.val
  · obtain ⟨d, hd⟩ := hinteger
    exact .inl ⟨d, .number hd⟩
  · by_cases hliteral : literal token
    · exact .inr ⟨_, .number hliteral (not_exists.mp hinteger)⟩
    · cases hfind : symbols.find? token with
      | none => exact .inr ⟨_, .undefined hliteral hfind⟩
      | some target =>
        by_cases hd : ∃ d : Displacement, d.val = (target : Int) - pc
        · obtain ⟨d, hd⟩ := hd
          exact .inl ⟨d, .label hliteral hfind hd⟩
        · exact .inr ⟨_, .label hliteral hfind (not_exists.mp hd)⟩

end

end Operand

/-! ## All operands -/

section

variable {symbols : SymbolTable} {pc : Nat} {head : Text} {operands : List Text} {o : Opcode}
  {i : Instruction} {fault : Fault}

/-- Operands of the register format are read as what they denote. -/
theorem registerForm_of_denotes {literal : Text → Prop} {r s : Register} {k : Fin 2}
    (h : Denotes literal symbols pc operands (.registers r s k))
    (build : Register → Register → Fin 2 → Instruction) :
    Operand.registerForm o build operands = .ok (build r s k) := by
  cases h with
  | @registers a b c _ _ _ ha hb hc =>
    exact registerForm_eq_ok_iff.mpr ⟨a, b, c, r, s, k, rfl, Operand.register_of_beginsWith ha,
      Operand.register_of_beginsWith hb, Operand.immediate_of_isDecimal (by decide) hc, rfl⟩

/-- Operands of the immediate format are read as what they denote. -/
theorem immediateForm_of_denotes {literal : Text → Prop} {r : Register} {k : Fin 8}
    (h : Denotes literal symbols pc operands (.immediate r k))
    (build : Register → Fin 8 → Instruction) :
    Operand.immediateForm o build operands = .ok (build r k) := by
  cases h with
  | @immediate a b _ _ ha hb =>
    exact immediateForm_eq_ok_iff.mpr ⟨a, b, r, k, rfl, Operand.register_of_beginsWith ha,
      Operand.immediate_of_isDecimal (by decide) hb, rfl⟩

/-- Operands of the register format are refused for their first fault. -/
theorem registerForm_of_fault {literal : Text → Prop} (ho : o.format = .register)
    (h : OperandFault literal symbols pc o operands fault)
    (build : Register → Register → Fin 2 → Instruction) :
    Operand.registerForm o build operands = .error fault := by
  unfold Operand.registerForm
  cases h with
  | count h =>
    rw [ho] at h
    split
    · exact absurd rfl h
    · rfl
  | first _ ha =>
    dsimp only
    rw [Operand.register_of_unknown ha]
    rfl
  -- operands are read from left to right, so those before the fault have been read
  | second _ ha hb =>
    dsimp only
    rw [Operand.register_of_beginsWith ha, ok_bind, Operand.register_of_unknown hb]
    rfl
  | third _ ha hb hc =>
    dsimp only
    rw [Operand.register_of_beginsWith ha, ok_bind, Operand.register_of_beginsWith hb, ok_bind,
      Operand.immediate_of_fault hc]
    rfl
  | only ho' | immediate ho' | jump ho' | syscall ho' => cases ho.symm.trans ho'

/-- Operands of the immediate format are refused for their first fault. -/
theorem immediateForm_of_fault {literal : Text → Prop} (ho : o.format = .immediate)
    (h : OperandFault literal symbols pc o operands fault)
    (build : Register → Fin 8 → Instruction) :
    Operand.immediateForm o build operands = .error fault := by
  unfold Operand.immediateForm
  cases h with
  | count h =>
    rw [ho] at h
    split
    · exact absurd rfl h
    · rfl
  | only _ ha =>
    dsimp only
    rw [Operand.register_of_unknown ha]
    rfl
  | immediate _ ha hb =>
    dsimp only
    rw [Operand.register_of_beginsWith ha, ok_bind, Operand.immediate_of_fault hb]
    rfl
  | first ho' | second ho' | third ho' | jump ho' | syscall ho' => cases ho.symm.trans ho'

/-- An instruction with one operand is refused if there are more or none. -/
theorem single_of_count {α : Type} (read : Text → Except Fault α) (h : operands.length ≠ 1) :
    Operand.single o read operands = .error (.operandCount o operands.length) := by
  unfold Operand.single
  split
  · exact absurd rfl h
  · rfl

/-- The operand of a jump is refused for its first fault. -/
theorem single_jump_of_fault (ho : o.format = .jump)
    (h : OperandFault Text.ReadsAsNumber symbols pc o operands fault) :
    Operand.single o (Operand.displacement symbols (Operand.distance pc)) operands =
      .error fault := by
  cases h with
  | count h =>
    rw [ho] at h
    exact single_of_count _ h
  | jump _ ha => exact Operand.displacement_of_fault ha
  | first ho' | second ho' | third ho' | only ho' | immediate ho' | syscall ho' =>
    cases ho.symm.trans ho'

/-- The operand of a system call is refused for its first fault. -/
theorem single_syscall_of_fault {literal : Text → Prop} (ho : o.format = .syscall)
    (h : OperandFault literal symbols pc o operands fault) :
    Operand.single o Operand.systemCall operands = .error fault := by
  cases h with
  | count h =>
    rw [ho] at h
    exact single_of_count _ h
  | syscall _ ha => exact Operand.systemCall_of_unknown ha
  | first ho' | second ho' | third ho' | only ho' | immediate ho' | jump ho' =>
    cases ho.symm.trans ho'

/-! ## Lines -/

/-- A line that spells an instruction is read as it. -/
theorem ofTokens_of_spells (h : Spells Text.ReadsAsNumber symbols pc head operands i) :
    Instruction.ofTokens symbols pc head operands = .ok i := by
  obtain ⟨hhead, hoperands⟩ := h
  have hop := Opcode.ofToken?_eq_some_iff.mpr hhead
  unfold Instruction.ofTokens Instruction.read
  rw [hop]
  cases i with
  | add r s k => exact registerForm_of_denotes hoperands .add
  | sub r s k => exact registerForm_of_denotes hoperands .sub
  | ifeq r s k => exact registerForm_of_denotes hoperands .ifeq
  | addi r k => exact immediateForm_of_denotes hoperands .addi
  | subi r k => exact immediateForm_of_denotes hoperands .subi
  | li r k => exact immediateForm_of_denotes hoperands .li
  | jump d =>
    cases hoperands with
    | jump ha =>
      exact map_eq_ok_iff.mpr ⟨d, Operand.displacement_of_jumpsBy ha, rfl⟩
  | syscall id =>
    -- system calls are given by name here and by number in the instruction
    generalize hid : Instruction.operands (.syscall id) = denoted at hoperands
    cases hoperands with
    | @syscall a s ha =>
      cases hid
      exact map_eq_ok_iff.mpr ⟨s, Operand.systemCall_of_beginsWith ha, rfl⟩
    | registers | immediate | jump => cases hid

/-- A line that is rejected is refused with that fault. -/
theorem ofTokens_of_rejects (h : Rejects Text.ReadsAsNumber symbols pc head operands fault) :
    Instruction.ofTokens symbols pc head operands = .error fault := by
  unfold Instruction.ofTokens Instruction.read
  cases h with
  | opcode h => rw [eq_none_of_forall_not Opcode.ofToken?_eq_some_iff h]
  | @operands o _ ho h =>
    rw [Opcode.ofToken?_eq_some_iff.mpr ho]
    cases o with
    | add => exact registerForm_of_fault rfl h .add
    | sub => exact registerForm_of_fault rfl h .sub
    | ifeq => exact registerForm_of_fault rfl h .ifeq
    | addi => exact immediateForm_of_fault rfl h .addi
    | subi => exact immediateForm_of_fault rfl h .subi
    | li => exact immediateForm_of_fault rfl h .li
    | jump => exact congrArg (Except.map Instruction.jump) (single_jump_of_fault rfl h)
    | syscall => exact congrArg (Except.map _) (single_syscall_of_fault rfl h)

end

/-! ## Every line is spelled or rejected -/

section

variable (literal : Text → Prop) (symbols : SymbolTable) (pc : Nat) {o : Opcode}
  {operands : List Text}

/-- Three tokens are operands of the register format, or one of them has the first fault. -/
theorem registers_or_fault (ho : o.format = .register) (hlength : operands.length = 3) :
    (∃ x : Operands, x.format = o.format ∧ Denotes literal symbols pc operands x) ∨
      ∃ fault, OperandFault literal symbols pc o operands fault := by
  obtain ⟨a, b, c, rfl⟩ := List.length_eq_three.mp hlength
  by_cases ha : ∃ r : Register, a.BeginsWith r.symbol
  · obtain ⟨r, ha⟩ := ha
    by_cases hb : ∃ s : Register, b.BeginsWith s.symbol
    · obtain ⟨s, hb⟩ := hb
      rcases Operand.immediate_or_fault 1 c with ⟨k, hc⟩ | ⟨fault, hc⟩
      · exact .inl ⟨.registers r s k, ho.symm, .registers ha hb hc⟩
      · exact .inr ⟨fault, .third ho ha hb hc⟩
    · exact .inr ⟨_, .second ho ha (not_exists.mp hb)⟩
  · exact .inr ⟨_, .first ho (not_exists.mp ha)⟩

theorem immediate_or_fault (ho : o.format = .immediate) (hlength : operands.length = 2) :
    (∃ x : Operands, x.format = o.format ∧ Denotes literal symbols pc operands x) ∨
      ∃ fault, OperandFault literal symbols pc o operands fault := by
  obtain ⟨a, b, rfl⟩ := List.length_eq_two.mp hlength
  by_cases ha : ∃ r : Register, a.BeginsWith r.symbol
  · obtain ⟨r, ha⟩ := ha
    rcases Operand.immediate_or_fault 3 b with ⟨k, hb⟩ | ⟨fault, hb⟩
    · exact .inl ⟨.immediate r k, ho.symm, .immediate ha hb⟩
    · exact .inr ⟨fault, .immediate ho ha hb⟩
  · exact .inr ⟨_, .only ho (not_exists.mp ha)⟩

theorem jump_or_fault (ho : o.format = .jump) (hlength : operands.length = 1) :
    (∃ x : Operands, x.format = o.format ∧ Denotes literal symbols pc operands x) ∨
      ∃ fault, OperandFault literal symbols pc o operands fault := by
  obtain ⟨a, rfl⟩ := List.length_eq_one_iff.mp hlength
  rcases Operand.jumpsBy_or_fault literal symbols pc a with ⟨d, ha⟩ | ⟨fault, ha⟩
  · exact .inl ⟨.jump d, ho.symm, .jump ha⟩
  · exact .inr ⟨fault, .jump ho ha⟩

theorem syscall_or_fault (ho : o.format = .syscall) (hlength : operands.length = 1) :
    (∃ x : Operands, x.format = o.format ∧ Denotes literal symbols pc operands x) ∨
      ∃ fault, OperandFault literal symbols pc o operands fault := by
  obtain ⟨a, rfl⟩ := List.length_eq_one_iff.mp hlength
  by_cases ha : ∃ s : Syscall, a.BeginsWith s.symbol
  · obtain ⟨s, ha⟩ := ha
    exact .inl ⟨.syscall s.id, ho.symm, .syscall ha⟩
  · exact .inr ⟨_, .syscall ho (not_exists.mp ha)⟩

/-- Tokens denote operands of an opcode, or have a first fault. -/
theorem denotes_or_fault (o : Opcode) (operands : List Text) :
    (∃ x : Operands, x.format = o.format ∧ Denotes literal symbols pc operands x) ∨
      ∃ fault, OperandFault literal symbols pc o operands fault := by
  by_cases hlength : operands.length = o.format.arity
  · cases ho : o.format with
    | register =>
      rw [ho] at hlength
      exact ho ▸ registers_or_fault literal symbols pc ho hlength
    | immediate =>
      rw [ho] at hlength
      exact ho ▸ immediate_or_fault literal symbols pc ho hlength
    | jump =>
      rw [ho] at hlength
      exact ho ▸ jump_or_fault literal symbols pc ho hlength
    | syscall =>
      rw [ho] at hlength
      exact ho ▸ syscall_or_fault literal symbols pc ho hlength
  · exact .inr ⟨_, .count hlength⟩

/-- Every line spells an instruction or is rejected. -/
theorem spells_or_rejects (head : Text) (operands : List Text) :
    (∃ i, Spells literal symbols pc head operands i) ∨
      ∃ fault, Rejects literal symbols pc head operands fault := by
  by_cases hhead : ∃ o : Opcode, head.BeginsWith o.symbol
  · obtain ⟨o, ho⟩ := hhead
    rcases denotes_or_fault literal symbols pc o operands with ⟨x, hx, hdenotes⟩ | ⟨fault, hfault⟩
    · obtain ⟨i, rfl, rfl⟩ := exists_instruction o hx
      exact .inl ⟨i, ho, hdenotes⟩
    · exact .inr ⟨fault, .operands ho hfault⟩
  · exact .inr ⟨_, .opcode (not_exists.mp hhead)⟩

end

/-! ## Encoding follows the grammar -/

section

variable {symbols : SymbolTable} {pc : Nat} {head : Text} {operands : List Text}
  {i : Instruction} {fault : Fault}

/-- A line is read as the instruction that it spells, and as no other. -/
theorem ofTokens_eq_ok_iff :
    Instruction.ofTokens symbols pc head operands = .ok i ↔
      Spells Text.ReadsAsNumber symbols pc head operands i := by
  refine ⟨?_, ofTokens_of_spells⟩
  intro h
  rcases spells_or_rejects Text.ReadsAsNumber symbols pc head operands with ⟨j, hj⟩ | ⟨fault, hf⟩
  · cases h.symm.trans (ofTokens_of_spells hj)
    exact hj
  · cases h.symm.trans (ofTokens_of_rejects hf)

/-- A line is refused for the fault that it is rejected for, and for no other. -/
theorem ofTokens_eq_error_iff :
    Instruction.ofTokens symbols pc head operands = .error fault ↔
      Rejects Text.ReadsAsNumber symbols pc head operands fault := by
  refine ⟨?_, ofTokens_of_rejects⟩
  intro h
  rcases spells_or_rejects Text.ReadsAsNumber symbols pc head operands with ⟨j, hj⟩ | ⟨fault', hf⟩
  · cases h.symm.trans (ofTokens_of_spells hj)
  · cases h.symm.trans (ofTokens_of_rejects hf)
    exact hf

end

/-- A line is encoded if and only if its tokens spell an instruction, which is read back from the
word; the numbers of that instruction are never refused when they are packed. A line that is not
encoded is reported with its number and its first fault. -/
theorem encode_follows_grammar (symbols : SymbolTable) (pc : Nat) (line : InstructionLine) :
    (∀ w, line.encode symbols pc = .ok w ↔
      ∃ i, Spells Text.ReadsAsNumber symbols pc line.head line.operands i ∧ w = i.word) ∧
    (∀ i, Spells Text.ReadsAsNumber symbols pc line.head line.operands i →
      Word.decode i.word = i ∧ i.fields.encode = .ok i.word) ∧
    (∀ d, line.encode symbols pc = .error d ↔
      d.line = line.num ∧
        Rejects Text.ReadsAsNumber symbols pc line.head line.operands d.fault) ∧
    ∀ d, line.encode symbols pc = .error d → d.kind ∈ Fault.instructionKinds := by
  refine ⟨?_, ?_, ?_, ?_⟩
  · intro w
    rw [encode_eq_ok_iff]
    exact exists_congr fun i => and_congr_left' ofTokens_eq_ok_iff
  · intro i hi
    exact ⟨decode_word i, encode_fields (isAssigned_of_read (ofTokens_of_spells hi))⟩
  · intro d
    rw [encode_eq_error_iff, ofTokens_eq_error_iff]
  · intro d h
    exact (encode_error h).2

/-- A symbol with a letter after it, numbers with many zeros, a label at the largest distance and
one that is too far. -/
theorem encode_follows_grammar_each :
    let table : SymbolTable := ⟨[(utf8 "near", 25), (utf8 "far", 26)]⟩
    let load : InstructionLine := ⟨4, utf8 "👈x", [utf8 "🍩", utf8 "00000000007"]⟩
    let back : InstructionLine := ⟨5, utf8 "♿", [utf8 "-0000000000000000000000000015"]⟩
    let near : InstructionLine := ⟨6, utf8 "♿", [utf8 "near"]⟩
    let far : InstructionLine := ⟨7, utf8 "♿", [utf8 "far"]⟩
    (load.encode table 10 = .ok 0xA7 ∧ Word.decode 0xA7 = .li .r1 7) ∧
      back.encode table 10 = .ok 0xDF ∧ near.encode table 10 = .ok 0xCF ∧
      far.encode table 10 = .error ⟨7, .labelRange 16 (utf8 "far")⟩ := by
  intro table load back near far
  have hjump : Text.BeginsWith (utf8 "♿") Opcode.jump.symbol := ⟨[], by decide +kernel⟩
  have hlabel : ∀ token ∈ [utf8 "near", utf8 "far"], ¬token.ReadsAsNumber := by
    intro token htoken
    rw [← Text.isSome_integer?_iff]
    revert token
    decide +kernel
  refine ⟨⟨?_, ?_⟩, ?_, ?_, ?_⟩
  · refine ((encode_follows_grammar table 10 load).1 0xA7).mpr ⟨.li .r1 7, ⟨?_, ?_⟩, rfl⟩
    · exact ⟨utf8 "x", by decide +kernel⟩
    · exact .immediate ⟨[], by decide +kernel⟩ (Text.isDecimal_iff.mpr (by decide +kernel))
  · exact decode_word (.li .r1 7)
  · refine ((encode_follows_grammar table 10 back).1 0xDF).mpr
      ⟨.jump ⟨-15, by decide⟩, ⟨hjump, .jump (.number ?_)⟩, rfl⟩
    exact Text.isInteger_iff.mpr ⟨15, Text.isDecimal_iff.mpr (by decide +kernel), by decide +kernel⟩
  · refine ((encode_follows_grammar table 10 near).1 0xCF).mpr
      ⟨.jump ⟨15, by decide⟩, ⟨hjump, .jump ?_⟩, rfl⟩
    exact .label (hlabel _ (by decide +kernel)) (by decide +kernel : _ = some 25) rfl
  · refine ((encode_follows_grammar table 10 far).2.2.1 _).mpr ⟨rfl, .operands hjump (.jump rfl ?_)⟩
    refine .label (hlabel _ (by decide +kernel)) (by decide +kernel : _ = some 26) ?_
    intro d hd
    have hbounds := d.bounds
    omega

/-- A token that is no number, but begins with one that is too large, is a label of the table at no
distance, and yet no jump to it is encoded. -/
theorem numeral_hides_target :
    let token : Text := utf8 "99999999999999999999x"
    let table : SymbolTable := ⟨[(token, 1)]⟩
    let line : InstructionLine := ⟨3, utf8 "♿", [token]⟩
    Spells Text.IsNumber table 1 line.head line.operands (.jump ⟨0, by decide⟩) ∧
      line.encode table 1 = .error ⟨3, .literalRange token⟩ := by
  intro token table line
  refine ⟨⟨⟨[], by decide +kernel⟩, .jump (.label ?_ (by decide +kernel : _ = some 1) rfl)⟩,
    by decide +kernel⟩
  rw [Text.isNumber_iff]
  decide +kernel

end Glyph8
