import Glyph8.Proofs.Attempt
import Glyph8.Proofs.Instruction.Codec

/-!
# Instructions as numbers

Outside of a source text, an instruction is a record of numbers: an opcode, two registers, an
immediate, a displacement and the number of a system call. The opcode says which of them matter. Any
number may stand in any field, so `Fields.encode` checks them before it packs them.

Three definitions say what it should do, without following the order in which it works.
`Fields.InRange` holds if the opcode is assigned and the fields of its format are in range.
`Fields.significant` clears the other fields. `Fields.FirstFault` is a fault of a field that matters
(`Fields.Faulty`) such that no fault comes before it, by the rank of the error.

Numbers are encoded exactly if they are in range (`exists_encode_iff`), and the word then holds the
significant numbers and nothing else (`fields_decode_of_encode`). Otherwise the error is the first
fault (`encode_eq_error_iff`). All of this follows from `outcome_check`: checking gives an
instruction with the significant numbers, or the first fault. Its proof looks at each format once,
in an `outcome_` lemma, which is stated for any instruction of the format; the three opcodes of the
register format and the three of the immediate format share theirs.

The other direction starts from a word. `encode_decode` says which words are encoded again when they
are decoded, and to which: a system call with the unassigned number is refused, and the rest comes
back in canonical spelling. The main result, `codec_exact`, puts both directions together.
-/

namespace Glyph8

/-! ## Letters of the alphabet as numbers -/

/-- A letter that is found by its number has it. -/
theorem exists_code_of_find? {α : Type} {letters : List α} {code : α → UInt8} {b : UInt8}
    (h : letters.find? (code · == b) ≠ none) : ∃ x, b = code x := by
  obtain ⟨x, hx⟩ := Option.ne_none_iff_exists'.mp h
  have hcode : (code x == b) = true := List.find?_some (p := (code · == b)) hx
  exact ⟨x, (beq_iff_eq.mp hcode).symm⟩

/-- There are eight opcodes, numbered from zero. -/
theorem Opcode.ofCode?_eq_none_iff : ∀ b : UInt8, ofCode? b = none ↔ 8 ≤ b.toNat := by
  refine forall_byte ?_
  decide +kernel

theorem Register.ofCode?_eq_none_iff : ∀ b : UInt8, ofCode? b = none ↔ 4 ≤ b.toNat := by
  refine forall_byte ?_
  decide +kernel

/-- Of the four numbers of system calls the last is unassigned. -/
theorem Syscall.ofCode?_eq_none_iff : ∀ b : UInt8, ofCode? b = none ↔ 3 ≤ b.toNat := by
  refine forall_byte ?_
  decide +kernel

theorem Opcode.exists_code {b : UInt8} (h : b.toNat < 8) : ∃ o : Opcode, b = o.code :=
  exists_code_of_find? (mt (ofCode?_eq_none_iff b).mp (Nat.not_le.mpr h))

theorem Register.exists_code {b : UInt8} (h : b.toNat < 4) : ∃ r : Register, b = r.code :=
  exists_code_of_find? (mt (ofCode?_eq_none_iff b).mp (Nat.not_le.mpr h))

theorem Syscall.exists_code {b : UInt8} (h : b.toNat < 3) : ∃ s : Syscall, b = s.code :=
  exists_code_of_find? (mt (ofCode?_eq_none_iff b).mp (Nat.not_le.mpr h))

theorem Register.ofCode?_code (r : Register) : ofCode? r.code = some r := by
  cases r <;> rfl

theorem Register.toNat_code_lt (r : Register) : r.code.toNat < 4 := by
  cases r <;> decide

theorem Syscall.ofCode?_code (s : Syscall) : ofCode? s.code = some s := by
  cases s <;> rfl

theorem exists_byteOf {n : Nat} {b : UInt8} (h : b.toNat < n) : ∃ k : Fin n, b = byteOf k :=
  ⟨⟨b.toNat, h⟩, UInt8.ofNat_toNat.symm⟩

/-! ## Numbers that describe an instruction -/

namespace Fields

variable {f : Fields} {r s : Register}

/-- An immediate that fits is read as itself. -/
theorem immediate_of_eq {bits : Nat} (hbits : Nat.pow 2 bits ≤ 256) {k : Fin (Nat.pow 2 bits)}
    (h : f.imm = byteOf k) : f.immediate bits = .ok k := by
  have hval : f.imm.toNat = k := by rw [h, toNat_byteOf hbits]
  unfold immediate
  simp only [hval, k.isLt, dif_pos]

/-- An immediate that does not fit is refused, with the number of bits there are. -/
theorem immediate_of_le (bits : Nat) (h : Nat.pow 2 bits ≤ f.imm.toNat) :
    f.immediate bits = .error (.immediateRange f.imm bits) := by
  unfold immediate
  rw [dif_neg (Nat.not_lt.mpr h)]

theorem registers_of_eq (hr : f.reg1 = r.code) (hs : f.reg2 = s.code) :
    f.registers = .ok (r, s) := by
  unfold registers
  rw [hr, hs, r.ofCode?_code, s.ofCode?_code]

/-- Two registers are refused together, whichever of them is out of range. -/
theorem registers_of_le (h : 4 ≤ f.reg1.toNat ∨ 4 ≤ f.reg2.toNat) :
    f.registers = .error .registerRange := by
  unfold registers
  rcases h with h | h
  · rw [(Register.ofCode?_eq_none_iff _).mpr h]
  · rw [(Register.ofCode?_eq_none_iff _).mpr h]
    cases Register.ofCode? f.reg1 <;> rfl

theorem register_of_eq (hr : f.reg1 = r.code) : f.register = .ok r := by
  unfold register
  rw [hr, r.ofCode?_code]

theorem register_of_le (h : 4 ≤ f.reg1.toNat) : f.register = .error .registerRange := by
  unfold register
  rw [(Register.ofCode?_eq_none_iff _).mpr h]

/-- Numbers in range make an instruction of the register format. -/
theorem registerForm_of_eq (build : Register → Register → Fin 2 → Instruction) {k : Fin 2}
    (hr : f.reg1 = r.code) (hs : f.reg2 = s.code) (hk : f.imm = byteOf k) :
    f.registerForm build = .ok (build r s k) := by
  unfold registerForm
  rw [registers_of_eq hr hs, ok_bind, immediate_of_eq (by decide) hk]
  rfl

/-- Numbers in range make an instruction of the immediate format. -/
theorem immediateForm_of_eq (build : Register → Fin 8 → Instruction) {k : Fin 8}
    (hr : f.reg1 = r.code) (hk : f.imm = byteOf k) :
    f.immediateForm build = .ok (build r k) := by
  unfold immediateForm
  rw [register_of_eq hr, ok_bind, immediate_of_eq (by decide) hk]
  rfl

end Fields

/-- The numbers of an instruction describe it, if its system call is assigned. -/
theorem check_fields {i : Instruction} (h : i.isAssigned = true) : i.fields.check = .ok i := by
  cases i with
  | add r s k => exact Fields.registerForm_of_eq .add rfl rfl rfl
  | sub r s k => exact Fields.registerForm_of_eq .sub rfl rfl rfl
  | ifeq r s k => exact Fields.registerForm_of_eq .ifeq rfl rfl rfl
  | addi r k => exact Fields.immediateForm_of_eq .addi rfl rfl
  | subi r k => exact Fields.immediateForm_of_eq .subi rfl rfl
  | li r k => exact Fields.immediateForm_of_eq .li rfl rfl
  | jump d =>
    have hd : Displacement.ofInt? d.val = some d := Displacement.ofInt?_eq_some_iff.mpr rfl
    show (Fields.displacement _).map Instruction.jump = _
    unfold Fields.displacement
    simp only [Instruction.fields, hd]
    rfl
  | syscall id =>
    obtain ⟨s, hs⟩ := Option.isSome_iff_exists.mp h
    show (Fields.systemCall _).map (fun s : Syscall => Instruction.syscall s.id) = _
    unfold Fields.systemCall
    simp only [Instruction.fields, hs]
    rw [← Syscall.id_of_ofCode? hs]
    rfl

/-- An instruction whose system call is assigned is packed into its word. -/
theorem encode_fields {i : Instruction} (h : i.isAssigned = true) :
    i.fields.encode = .ok i.word := by
  unfold Fields.encode
  rw [check_fields h]
  rfl

/-! ## Fields that matter, and their faults -/

/-- The order in which the fields are looked at. -/
def FieldError.rank : FieldError → Nat
  | unknownOpcode _ => 0
  | registerRange => 1
  | immediateRange _ _ => 2
  | displacementRange _ => 3
  | unknownSyscall _ => 4

namespace Fields

/-- The numbers with every field that the format does not use set to zero. -/
def significant (f : Fields) : Fields :=
  match Opcode.formatOf f.op with
  | .register => { op := f.op, reg1 := f.reg1, reg2 := f.reg2, imm := f.imm }
  | .immediate => { op := f.op, reg1 := f.reg1, imm := f.imm }
  | .jump => { op := f.op, disp := f.disp }
  | .syscall => { op := f.op, call := f.call }

/-- The opcode is assigned, and every field that its format uses is in range. -/
def InRange (f : Fields) : Prop :=
  f.op.toNat < 8 ∧
    match Opcode.formatOf f.op with
    | .register => f.reg1.toNat < 4 ∧ f.reg2.toNat < 4 ∧ f.imm.toNat ≤ 1
    | .immediate => f.reg1.toNat < 4 ∧ f.imm.toNat ≤ 7
    | .jump => -15 ≤ f.disp ∧ f.disp ≤ 15
    | .syscall => f.call.toNat < 3

/-- What can be wrong with a field that the format uses. There may be several faults. -/
inductive Faulty (f : Fields) : FieldError → Prop
  | opcode (h : 8 ≤ f.op.toNat) : Faulty f (.unknownOpcode f.op)
  | registers (hformat : Opcode.formatOf f.op = .register)
      (h : 4 ≤ f.reg1.toNat ∨ 4 ≤ f.reg2.toNat) : Faulty f .registerRange
  | register (hformat : Opcode.formatOf f.op = .immediate) (h : 4 ≤ f.reg1.toNat) :
      Faulty f .registerRange
  | bit (hformat : Opcode.formatOf f.op = .register) (h : 1 < f.imm.toNat) :
      Faulty f (.immediateRange f.imm 1)
  | bits (hformat : Opcode.formatOf f.op = .immediate) (h : 7 < f.imm.toNat) :
      Faulty f (.immediateRange f.imm 3)
  | displacement (hformat : Opcode.formatOf f.op = .jump) (h : f.disp < -15 ∨ 15 < f.disp) :
      Faulty f (.displacementRange f.disp)
  | syscall (hformat : Opcode.formatOf f.op = .syscall) (h : 3 ≤ f.call.toNat) :
      Faulty f (.unknownSyscall f.call)

/-- A fault that no other comes before. -/
def FirstFault (f : Fields) (e : FieldError) : Prop :=
  f.Faulty e ∧ ∀ d, f.Faulty d → e.rank ≤ d.rank

/-- What checking numbers comes to: an instruction that they describe up to the fields that do not
matter, or their first fault. -/
inductive Outcome (f : Fields) : Except FieldError Instruction → Prop
  | ok {i : Instruction} (hassigned : i.isAssigned = true) (hfields : i.fields = f.significant) :
      Outcome f (.ok i)
  | error {e : FieldError} (h : f.FirstFault e) : Outcome f (.error e)

variable {f : Fields} {d e : FieldError}

/-- Numbers in range have no fault. -/
theorem InRange.not_faulty (h : f.InRange) : ¬f.Faulty e := by
  obtain ⟨hop, h⟩ := h
  intro hfault
  cases hfault with
  | opcode hlt => omega
  | registers hformat hlt | register hformat hlt | bit hformat hlt | bits hformat hlt
  | displacement hformat hlt | syscall hformat hlt =>
    simp only [hformat] at h
    omega

/-- There is no more than one fault of each rank. -/
theorem Faulty.eq_of_rank (hd : f.Faulty d) (he : f.Faulty e) (h : d.rank = e.rank) : d = e := by
  cases hd with
  | opcode _ =>
    cases he with
    | opcode _ => rfl
    | registers | register | bit | bits | displacement | syscall => cases h
  -- the two formats report a register by the same error
  | registers _ _ | register _ _ =>
    cases he with
    | registers _ _ | register _ _ => rfl
    | opcode | bit | bits | displacement | syscall => cases h
  | bit hformat _ =>
    cases he with
    | bit _ _ => rfl
    | bits hformat' _ => cases hformat.symm.trans hformat'
    | opcode | registers | register | displacement | syscall => cases h
  | bits hformat _ =>
    cases he with
    | bits _ _ => rfl
    | bit hformat' _ => cases hformat.symm.trans hformat'
    | opcode | registers | register | displacement | syscall => cases h
  | displacement _ _ =>
    cases he with
    | displacement _ _ => rfl
    | opcode | registers | register | bit | bits | syscall => cases h
  | syscall _ _ =>
    cases he with
    | syscall _ _ => rfl
    | opcode | registers | register | bit | bits | displacement => cases h

/-! ## One outcome for each format -/

/-- With an assigned opcode, no fault comes before those of the registers. -/
theorem Faulty.one_le_rank (hop : f.op.toNat < 8) (h : f.Faulty e) : 1 ≤ e.rank := by
  cases h with
  | opcode h => omega
  | registers | register | bit | bits | displacement | syscall => simp [FieldError.rank]

/-- What checking comes to in the register format. A bad register is reported before a bad bit. -/
theorem outcome_registerForm (hop : f.op.toNat < 8) (hformat : Opcode.formatOf f.op = .register)
    {build : Register → Register → Fin 2 → Instruction}
    (hbuild : ∀ r s k, (build r s k).isAssigned = true ∧ (build r s k).fields =
      { op := f.op, reg1 := r.code, reg2 := s.code, imm := byteOf k }) :
    f.Outcome (f.registerForm build) := by
  by_cases hregs : 4 ≤ f.reg1.toNat ∨ 4 ≤ f.reg2.toNat
  · unfold registerForm
    rw [registers_of_le hregs, error_bind]
    exact .error ⟨.registers hformat hregs, fun _ hd => hd.one_le_rank hop⟩
  obtain ⟨h1, h2⟩ := not_or.mp hregs
  obtain ⟨r, hr⟩ := Register.exists_code (Nat.lt_of_not_le h1)
  obtain ⟨s, hs⟩ := Register.exists_code (Nat.lt_of_not_le h2)
  -- the registers are in range, so only the immediate can be at fault
  by_cases himm : 1 < f.imm.toNat
  · unfold registerForm
    rw [registers_of_eq hr hs, ok_bind]
    show f.Outcome (f.immediate 1 >>= _)
    rw [immediate_of_le 1 himm, error_bind]
    refine .error ⟨.bit hformat himm, ?_⟩
    intro d hd
    cases hd with
    | opcode h => omega
    | registers _ h => exact absurd h hregs
    | register hformat' _ => cases hformat.symm.trans hformat'
    | bit | bits | displacement | syscall => simp [FieldError.rank]
  · obtain ⟨k, hk⟩ := exists_byteOf (n := 2) (by omega : f.imm.toNat < 2)
    rw [registerForm_of_eq build hr hs hk]
    refine .ok (hbuild r s k).1 ((hbuild r s k).2.trans ?_)
    unfold significant
    simp only [hformat, hr, hs, hk]

/-- What checking comes to in the immediate format. A bad register is reported before bad bits. -/
theorem outcome_immediateForm (hop : f.op.toNat < 8) (hformat : Opcode.formatOf f.op = .immediate)
    {build : Register → Fin 8 → Instruction}
    (hbuild : ∀ r k, (build r k).isAssigned = true ∧
      (build r k).fields = { op := f.op, reg1 := r.code, imm := byteOf k }) :
    f.Outcome (f.immediateForm build) := by
  by_cases hreg : 4 ≤ f.reg1.toNat
  · unfold immediateForm
    rw [register_of_le hreg, error_bind]
    exact .error ⟨.register hformat hreg, fun _ hd => hd.one_le_rank hop⟩
  obtain ⟨r, hr⟩ := Register.exists_code (Nat.lt_of_not_le hreg)
  by_cases himm : 7 < f.imm.toNat
  · unfold immediateForm
    rw [register_of_eq hr, ok_bind, immediate_of_le 3 himm, error_bind]
    refine .error ⟨.bits hformat himm, ?_⟩
    intro d hd
    cases hd with
    | opcode h => omega
    | registers hformat' _ => cases hformat.symm.trans hformat'
    | register _ h => exact absurd h hreg
    | bit | bits | displacement | syscall => simp [FieldError.rank]
  · obtain ⟨k, hk⟩ := exists_byteOf (n := 8) (by omega : f.imm.toNat < 8)
    rw [immediateForm_of_eq build hr hk]
    refine .ok (hbuild r k).1 ((hbuild r k).2.trans ?_)
    unfold significant
    simp only [hformat, hr, hk]

/-- What checking comes to for a jump. -/
theorem outcome_displacement (hop : f.op.toNat < 8) (hformat : Opcode.formatOf f.op = .jump)
    {build : Displacement → Instruction}
    (hbuild : ∀ d, (build d).isAssigned = true ∧
      (build d).fields = { op := f.op, disp := d.val }) :
    f.Outcome (f.displacement.map build) := by
  unfold displacement
  by_cases hrange : -15 ≤ f.disp ∧ f.disp ≤ 15
  · have hd : Displacement.ofInt? f.disp = some ⟨f.disp, hrange⟩ :=
      Displacement.ofInt?_eq_some_iff.mpr rfl
    rw [hd]
    refine .ok (hbuild _).1 ((hbuild _).2.trans ?_)
    unfold significant
    simp only [hformat]
  · have hd : Displacement.ofInt? f.disp = none := dif_neg hrange
    rw [hd]
    refine .error ⟨.displacement hformat (by omega), ?_⟩
    intro e he
    cases he with
    | opcode h => omega
    | displacement => exact Nat.le_refl _
    | registers hformat' | register hformat' | bit hformat' | bits hformat' | syscall hformat' =>
      cases hformat.symm.trans hformat'

/-- What checking comes to for a system call. -/
theorem outcome_systemCall (hop : f.op.toNat < 8) (hformat : Opcode.formatOf f.op = .syscall)
    {build : Syscall → Instruction}
    (hbuild : ∀ s, (build s).isAssigned = true ∧
      (build s).fields = { op := f.op, call := s.code }) :
    f.Outcome (f.systemCall.map build) := by
  unfold systemCall
  by_cases hcall : 3 ≤ f.call.toNat
  · rw [(Syscall.ofCode?_eq_none_iff _).mpr hcall]
    refine .error ⟨.syscall hformat hcall, ?_⟩
    intro e he
    cases he with
    | opcode h => omega
    | syscall => exact Nat.le_refl _
    | registers hformat' | register hformat' | bit hformat' | bits hformat'
    | displacement hformat' => cases hformat.symm.trans hformat'
  · obtain ⟨s, hs⟩ := Syscall.exists_code (Nat.lt_of_not_le hcall)
    rw [hs, s.ofCode?_code]
    refine .ok (hbuild s).1 ((hbuild s).2.trans ?_)
    unfold significant
    simp only [hformat, hs]

/-- Checking finds the instruction or the first fault, for numbers of any kind. -/
theorem outcome_check (f : Fields) : f.Outcome f.check := by
  by_cases hop : 8 ≤ f.op.toNat
  · unfold check
    rw [(Opcode.ofCode?_eq_none_iff _).mpr hop]
    exact .error ⟨.opcode hop, fun d _ => Nat.zero_le d.rank⟩
  have hlt := Nat.lt_of_not_le hop
  obtain ⟨o, ho⟩ := Opcode.exists_code hlt
  obtain ⟨op, reg1, reg2, imm, disp, call⟩ := f
  cases ho
  cases o with
  | add | sub | ifeq => exact outcome_registerForm hlt rfl fun _ _ _ => ⟨rfl, rfl⟩
  | addi | subi | li => exact outcome_immediateForm hlt rfl fun _ _ => ⟨rfl, rfl⟩
  | jump => exact outcome_displacement hlt rfl fun _ => ⟨rfl, rfl⟩
  | syscall => exact outcome_systemCall hlt rfl fun s => by cases s <;> exact ⟨rfl, rfl⟩

/-! ## Encoding -/

/-- The fields that do not matter have no say in whether numbers are in range. -/
theorem inRange_significant : f.significant.InRange ↔ f.InRange := by
  unfold significant
  cases hformat : Opcode.formatOf f.op <;> simp only [InRange, hformat]

/-- The numbers of an instruction are in range, if its system call is assigned. -/
theorem inRange_fields {i : Instruction} (h : i.isAssigned = true) : i.fields.InRange := by
  have hop : i.fields.op.toNat < 8 := by cases i <;> simp [Instruction.fields]
  cases i with
  | add r s k | sub r s k | ifeq r s k =>
    have hk : (byteOf k).toNat = k := toNat_byteOf (by decide) k
    exact ⟨hop, r.toNat_code_lt, s.toNat_code_lt, hk ▸ Nat.le_of_lt_succ k.isLt⟩
  | addi r k | subi r k | li r k =>
    have hk : (byteOf k).toNat = k := toNat_byteOf (by decide) k
    exact ⟨hop, r.toNat_code_lt, hk ▸ Nat.le_of_lt_succ k.isLt⟩
  | jump d => exact ⟨hop, d.bounds⟩
  | syscall id =>
    refine ⟨hop, Nat.lt_of_not_le fun hle => ?_⟩
    have hnone := (Syscall.ofCode?_eq_none_iff _).mpr hle
    exact nomatch (congrArg Option.isSome hnone).symm.trans h

theorem inRange_of_fields {i : Instruction} (hassigned : i.isAssigned = true)
    (hfields : i.fields = f.significant) : f.InRange :=
  inRange_significant.mp (hfields ▸ inRange_fields hassigned)

/-- Numbers describe an instruction exactly if those that matter are its own. -/
theorem check_eq_ok_iff {i : Instruction} :
    f.check = .ok i ↔ i.isAssigned = true ∧ i.fields = f.significant := by
  have houtcome := f.outcome_check
  constructor
  · intro h
    rw [h] at houtcome
    cases houtcome with
    | ok hassigned hfields => exact ⟨hassigned, hfields⟩
  · rintro ⟨hassigned, hfields⟩
    generalize f.check = result at houtcome
    cases houtcome with
    | ok hassigned' hfields' =>
      -- an instruction is known by its numbers
      rw [← check_fields hassigned', hfields', ← hfields, check_fields hassigned]
    | error hfirst => exact absurd hfirst.1 (inRange_of_fields hassigned hfields).not_faulty

/-- The word of numbers is that of the instruction they describe. -/
theorem encode_eq_ok_iff {w : Word} :
    f.encode = .ok w ↔
      ∃ i : Instruction, (i.isAssigned = true ∧ i.fields = f.significant) ∧ i.word = w := by
  unfold encode
  rw [map_eq_ok_iff]
  simp only [check_eq_ok_iff]

/-- Numbers are encoded exactly if they are in range. -/
theorem exists_encode_iff : (∃ w, f.encode = .ok w) ↔ f.InRange := by
  constructor
  · rintro ⟨w, hw⟩
    obtain ⟨i, ⟨hassigned, hfields⟩, _⟩ := encode_eq_ok_iff.mp hw
    exact inRange_of_fields hassigned hfields
  · intro hrange
    have houtcome := f.outcome_check
    unfold encode
    generalize f.check = result at houtcome
    cases houtcome with
    | ok => exact ⟨_, rfl⟩
    | error hfirst => exact absurd hfirst.1 hrange.not_faulty

/-- Numbers that are not encoded are refused for their first fault, and there is only one. -/
theorem encode_eq_error_iff : f.encode = .error e ↔ f.FirstFault e := by
  have houtcome := f.outcome_check
  unfold encode
  generalize f.check = result at houtcome
  cases houtcome with
  | ok hassigned hfields =>
    refine ⟨nofun, fun hfirst => ?_⟩
    exact absurd hfirst.1 (inRange_of_fields hassigned hfields).not_faulty
  | error hfound =>
    constructor
    · intro h
      cases h
      exact hfound
    · intro hfirst
      have hrank := Nat.le_antisymm (hfound.2 _ hfirst.1) (hfirst.2 _ hfound.1)
      rw [hfound.1.eq_of_rank hfirst.1 hrank]
      rfl

/-- The numbers that matter are read back from the word, the others as zero. -/
theorem fields_decode_of_encode {w : Word} (h : f.encode = .ok w) :
    (Word.decode w).fields = f.significant := by
  obtain ⟨i, ⟨_, hfields⟩, rfl⟩ := encode_eq_ok_iff.mp h
  rw [decode_word, hfields]

/-- Numbers have the same word as others exactly if they differ in no field that matters. -/
theorem encode_eq_encode_iff {g : Fields} :
    (∃ w, f.encode = .ok w ∧ g.encode = .ok w) ↔ f.InRange ∧ f.significant = g.significant := by
  constructor
  · rintro ⟨w, hf, hg⟩
    refine ⟨exists_encode_iff.mp ⟨w, hf⟩, ?_⟩
    rw [← fields_decode_of_encode hf, fields_decode_of_encode hg]
  · rintro ⟨hrange, hsame⟩
    obtain ⟨w, hw⟩ := exists_encode_iff.mpr hrange
    refine ⟨w, hw, ?_⟩
    rw [encode_eq_ok_iff, hsame] at hw
    exact encode_eq_ok_iff.mpr hw

end Fields

/-! ## Encoding decoded words -/

/-- The unassigned system call is the one instruction that is refused. -/
theorem encode_fields_unassigned {i : Instruction} (h : i.isAssigned = false) :
    i.fields.encode = .error (.unknownSyscall 3) := by
  cases i with
  | add | sub | ifeq | addi | subi | li | jump => cases h
  | syscall id =>
    revert id
    decide

/-- What becomes of a word that is decoded and encoded again. -/
theorem encode_decode (w : Word) :
    (Word.decode w).fields.encode =
      if w.isUnassigned then .error (.unknownSyscall 3) else .ok w.canonical := by
  have hassigned := isAssigned_decode w
  by_cases hw : w.isUnassigned = true
  · rw [hw] at hassigned
    rw [encode_fields_unassigned hassigned, if_pos hw]
  · rw [Bool.not_eq_true] at hw
    rw [hw] at hassigned
    rw [encode_fields hassigned, word_decode, hw]
    rfl

/-- The words that are not canonical: the jump by negative zero, and system calls with unused bits
set. -/
theorem canonical_eq_self_iff :
    ∀ w : Word, w.canonical = w ↔ w ≠ 0xD0 ∧ ¬(w >>> 5 = 7 ∧ w &&& 0x1C ≠ 0) := by
  refine forall_byte ?_
  decide +kernel

/-- Numbers are encoded if and only if the opcode is assigned and the fields of its format are in
range. The word is decoded to the numbers with all other fields zero, so numbers with the same word
differ only in those. Numbers that are not encoded are refused for their first fault. A decoded word
is encoded again unless it is a system call with the unassigned number; the result is decoded in the
same way, and is another word only for the jump by negative zero and for system calls with unused
bits set. -/
theorem codec_exact :
    (∀ f : Fields,
      ((∃ w, f.encode = .ok w) ↔ f.InRange) ∧
      (∀ w, f.encode = .ok w → (Word.decode w).fields = f.significant) ∧
      (∀ g : Fields, (∃ w, f.encode = .ok w ∧ g.encode = .ok w) ↔
        f.InRange ∧ f.significant = g.significant) ∧
      ∀ e, f.encode = .error e ↔ f.Faulty e ∧ ∀ d, f.Faulty d → e.rank ≤ d.rank) ∧
    ∀ w : Word,
      ((∃ v, (Word.decode w).fields.encode = .ok v) ↔ ¬(w >>> 5 = 7 ∧ w &&& 3 = 3)) ∧
      ∀ v, (Word.decode w).fields.encode = .ok v →
        Word.decode v = Word.decode w ∧
          (v = w ↔ w ≠ 0xD0 ∧ ¬(w >>> 5 = 7 ∧ w &&& 0x1C ≠ 0)) := by
  refine ⟨fun f => ⟨Fields.exists_encode_iff, fun _ => Fields.fields_decode_of_encode,
    fun _ => Fields.encode_eq_encode_iff, fun _ => Fields.encode_eq_error_iff⟩, fun w => ?_⟩
  have hunassigned : w.isUnassigned = true ↔ w >>> 5 = 7 ∧ w &&& 3 = 3 := by
    simp [Word.isUnassigned]
  rw [encode_decode]
  -- an unassigned system call is decoded, but it cannot be encoded again
  by_cases hw : w.isUnassigned = true
  · rw [if_pos hw]
    refine ⟨⟨nofun, fun hnot => absurd (hunassigned.mp hw) hnot⟩, ?_⟩
    intro v hv
    cases hv
  · rw [if_neg hw]
    refine ⟨⟨fun _ => mt hunassigned.mpr hw, fun _ => ⟨_, rfl⟩⟩, ?_⟩
    intro v hv
    cases hv
    exact ⟨decode_canonical w, canonical_eq_self_iff w⟩

/-- Two jumps that differ in every field that does not matter, an addition with two faults, and a
system call with all its unused bits set. -/
theorem codec_exact_unused :
    let far : Fields := ⟨6, 200, 9, 255, -15, 77⟩
    let same : Fields := ⟨6, 4, 0, 8, -15, 3⟩
    let wrong : Fields := ⟨0, 3, 4, 2, 99, 9⟩
    (far.encode = .ok 0xDF ∧ (Word.decode 0xDF).fields = ⟨6, 0, 0, 0, -15, 0⟩) ∧
      (∃ w, far.encode = .ok w ∧ same.encode = .ok w) ∧
      (wrong.Faulty (.immediateRange 2 1) ∧ wrong.encode = .error .registerRange) ∧
      (Word.decode 0xFC).fields.encode = .ok 0xE0 ∧ Word.decode 0xE0 = Word.decode 0xFC := by
  intro far same wrong
  have hfar : far.encode = .ok 0xDF := by decide +kernel
  have hcall : (Word.decode 0xFC).fields.encode = .ok 0xE0 := by decide +kernel
  refine ⟨⟨hfar, (codec_exact.1 far).2.1 0xDF hfar⟩, ?_, ⟨?_, ?_⟩, hcall,
    ((codec_exact.2 0xFC).2 0xE0 hcall).1⟩
  · exact ((codec_exact.1 far).2.2.1 same).mpr ⟨⟨by decide, by decide, by decide⟩, rfl⟩
  · exact .bit rfl (by decide)
  · refine ((codec_exact.1 wrong).2.2.2 _).mpr ⟨.registers rfl (.inr (by decide)), ?_⟩
    exact fun _ hd => hd.one_le_rank (by decide)

end Glyph8
