import Glyph8.Assembly.Program
import Glyph8.Proofs.Attempt
import Glyph8.Proofs.Instruction.Numbers
import Glyph8.Proofs.Text.Numerals

/-!
# The second pass

The second pass turns every instruction line into a word: its tokens are read as an instruction, the
instruction is packed, and a fault is put to the line. This module says what each of these steps
comes to, so that later proofs need not open them.

Reading tokens is described by the two forms that three operands or two operands take
(`registerForm_eq_ok_iff`, `immediateForm_eq_ok_iff`) and by the jump (`ofTokens_jump`), whose
operand is a number or a label (`displacement_cases`).

Packing goes through the numbers of the instruction and checks them once more. The check cannot
fail: what is read from tokens is in range, and its system call is assigned (`isAssigned_of_read`),
so the word is simply that of the instruction (`InstructionLine.encode_eq`). The error that a failed
check would be reported as is thus never seen.

Positions are numbers without a limit. Where they are kept in 64 bits, distances wrap around, and
`encodeWrapped` is what a line then becomes. The two agree as long as no position needs the highest
bit (`encodeWrapped_eq_encode`); positions in a text that fits into memory are far below that.

Last come the passes over all lines: what a successful assembly went through (`assemble_eq_ok_iff`),
and which word stands at which index (`getElem?_encodeAll`).
-/

namespace Glyph8

/-! ## Instructions and their tokens -/

/-- A register-format instruction has three operands: two registers and a bit. -/
theorem registerForm_eq_ok_iff {op : Opcode} {build : Register → Register → Fin 2 → Instruction}
    {operands : List Text} {instr : Instruction} :
    Operand.registerForm op build operands = .ok instr ↔
      ∃ a b c r s k, operands = [a, b, c] ∧ Operand.register .first a = .ok r ∧
        Operand.register .second b = .ok s ∧ Operand.immediate 1 c = .ok k ∧
          instr = build r s k := by
  constructor
  · intro h
    unfold Operand.registerForm at h
    split at h
    · next a b c =>
      obtain ⟨r, hr, h⟩ := bind_eq_ok_iff.mp h
      obtain ⟨s, hs, h⟩ := bind_eq_ok_iff.mp h
      obtain ⟨k, hk, h⟩ := bind_eq_ok_iff.mp h
      exact ⟨a, b, c, r, s, k, rfl, hr, hs, hk, (Except.ok.inj h).symm⟩
    · cases h
  · rintro ⟨a, b, c, r, s, k, rfl, hr, hs, hk, rfl⟩
    show (Operand.register .first a >>= _) = _
    rw [hr, ok_bind, hs, ok_bind, hk, ok_bind]
    rfl

/-- An immediate-format instruction has two operands: a register and three bits. -/
theorem immediateForm_eq_ok_iff {op : Opcode} {build : Register → Fin 8 → Instruction}
    {operands : List Text} {instr : Instruction} :
    Operand.immediateForm op build operands = .ok instr ↔
      ∃ a b r k, operands = [a, b] ∧ Operand.register .only a = .ok r ∧
        Operand.immediate 3 b = .ok k ∧ instr = build r k := by
  constructor
  · intro h
    unfold Operand.immediateForm at h
    split at h
    · next a b =>
      obtain ⟨r, hr, h⟩ := bind_eq_ok_iff.mp h
      obtain ⟨k, hk, h⟩ := bind_eq_ok_iff.mp h
      exact ⟨a, b, r, k, rfl, hr, hk, (Except.ok.inj h).symm⟩
    · cases h
  · rintro ⟨a, b, r, k, rfl, hr, hk, rfl⟩
    show (Operand.register .only a >>= _) = _
    rw [hr, ok_bind, hk, ok_bind]
    rfl

/-- What tokens are read as has the opcode that the first of them spells, and is never the
unassigned system call. One split over the opcodes gives both. -/
theorem opcode_and_isAssigned_of_read {symbols : SymbolTable} {distanceTo : Nat → Int} {head : Text}
    {operands : List Text} {i : Instruction}
    (h : Instruction.read symbols distanceTo head operands = .ok i) :
    Opcode.ofToken? head = some i.opcode ∧ i.isAssigned = true := by
  unfold Instruction.read at h
  cases hop : Opcode.ofToken? head with
  | none => simp [hop] at h
  | some o =>
    simp only [hop] at h
    cases o with
    | add | sub | ifeq =>
      obtain ⟨_, _, _, _, _, _, _, _, _, _, rfl⟩ := registerForm_eq_ok_iff.mp h
      exact ⟨rfl, rfl⟩
    | addi | subi | li =>
      obtain ⟨_, _, _, _, _, _, _, rfl⟩ := immediateForm_eq_ok_iff.mp h
      exact ⟨rfl, rfl⟩
    | jump =>
      obtain ⟨_, _, rfl⟩ := map_eq_ok_iff.mp h
      exact ⟨rfl, rfl⟩
    -- a name is read as one of the assigned calls; there is no name for the other number
    | syscall =>
      obtain ⟨s, _, rfl⟩ := map_eq_ok_iff.mp h
      have hassigned : (Syscall.ofCode? (byteOf s.id)).isSome = true := by
        rw [s.ofCode?_id]
        rfl
      exact ⟨rfl, hassigned⟩

/-- The first token of a line spells the opcode of the line's instruction. -/
theorem ofToken?_of_ofTokens {symbols : SymbolTable} {pc : Nat} {head : Text}
    {operands : List Text} {instr : Instruction}
    (h : Instruction.ofTokens symbols pc head operands = .ok instr) :
    Opcode.ofToken? head = some instr.opcode :=
  (opcode_and_isAssigned_of_read h).1

/-! ## Packing -/

/-- The numbers of an instruction that is not the unassigned system call are all in range. -/
theorem pack_of_isAssigned {i : Instruction} (h : i.isAssigned = true) : i.pack = .ok i.word := by
  unfold Instruction.pack
  rw [encode_fields h]
  rfl

/-- No tokens spell the unassigned system call. -/
theorem isAssigned_of_read {symbols : SymbolTable} {distanceTo : Nat → Int} {head : Text}
    {operands : List Text} {i : Instruction}
    (h : Instruction.read symbols distanceTo head operands = .ok i) : i.isAssigned = true :=
  (opcode_and_isAssigned_of_read h).2

/-- What is read from tokens can be packed, so packing never adds an error of its own. -/
theorem InstructionLine.encodeBy_eq (symbols : SymbolTable) (distanceTo : Nat → Int)
    (l : InstructionLine) :
    l.encodeBy symbols distanceTo =
      atLine l.num ((Instruction.read symbols distanceTo l.head l.operands).map
        Instruction.word) := by
  unfold InstructionLine.encodeBy
  cases hread : Instruction.read symbols distanceTo l.head l.operands with
  | error fault => rfl
  | ok i => rw [ok_bind, pack_of_isAssigned (isAssigned_of_read hread)]; rfl

/-- The word of an instruction line is that of the instruction its tokens spell, and its error is
theirs. -/
theorem InstructionLine.encode_eq (symbols : SymbolTable) (pc : Nat) (l : InstructionLine) :
    l.encode symbols pc =
      atLine l.num ((Instruction.ofTokens symbols pc l.head l.operands).map Instruction.word) :=
  l.encodeBy_eq symbols (Operand.distance pc)

section

variable {symbols : SymbolTable} {pc : Nat} {l : InstructionLine}

/-- A line is encoded exactly if its tokens spell an instruction, to the word of that. -/
theorem encode_eq_ok_iff {w : Word} :
    l.encode symbols pc = .ok w ↔
      ∃ i, Instruction.ofTokens symbols pc l.head l.operands = .ok i ∧ w = i.word := by
  rw [l.encode_eq]
  unfold atLine
  cases Instruction.ofTokens symbols pc l.head l.operands with
  | error fault => simp [Except.map, Except.mapError]
  | ok i => simp [Except.map, Except.mapError, eq_comm]

/-- A line that is not encoded is reported with its number and the fault of its tokens. -/
theorem encode_eq_error_iff {d : Diagnostic} :
    l.encode symbols pc = .error d ↔
      d.line = l.num ∧ Instruction.ofTokens symbols pc l.head l.operands = .error d.fault := by
  rw [l.encode_eq]
  unfold atLine
  cases Instruction.ofTokens symbols pc l.head l.operands with
  | error fault =>
    cases d
    simp [Except.map, Except.mapError, eq_comm]
  | ok i => simp [Except.map, Except.mapError]

/-- The word of an instruction line is that of the instruction its tokens spell. -/
theorem place_eq_ok_iff {w : PlacedWord} :
    l.place symbols pc = .ok w ↔
      ∃ i, Instruction.ofTokens symbols pc l.head l.operands = .ok i ∧ w = ⟨l.num, i.word⟩ := by
  unfold InstructionLine.place
  rw [map_eq_ok_iff]
  constructor
  · rintro ⟨_, h, rfl⟩
    obtain ⟨i, hi, rfl⟩ := encode_eq_ok_iff.mp h
    exact ⟨i, hi, rfl⟩
  · rintro ⟨i, hi, rfl⟩
    exact ⟨i.word, encode_eq_ok_iff.mpr ⟨i, hi, rfl⟩, rfl⟩

end

/-! ## Positions of 64 bits -/

/-- Positions that are signed 64-bit numbers as well are too close to each other for their distance
to wrap around. -/
theorem Operand.wrappedDistance_eq {start target : Nat} (hstart : start ≤ Text.maxInt64)
    (htarget : target ≤ Text.maxInt64) : wrappedDistance start target = distance start target := by
  unfold Text.maxInt64 at hstart htarget
  unfold wrappedDistance UInt64.size
  refine Int.bmod_eq_of_le ?_ ?_
  · unfold distance
    omega
  · unfold distance
    omega

/-- Only the distances to the labels matter. -/
theorem Operand.displacement_congr {symbols : SymbolTable} {f g : Nat → Int}
    (h : ∀ name target, symbols.find? name = some target → f target = g target) (token : Text) :
    displacement symbols f token = displacement symbols g token := by
  unfold displacement
  cases hfind : symbols.find? token with
  | none => rfl
  | some target => simp only [h token target hfind]

/-- A line is encoded in the same way if positions are kept in 64 bits and no position needs the
highest of them. -/
theorem encodeWrapped_eq_encode {symbols : SymbolTable} {pc : Nat} (hpc : pc ≤ Text.maxInt64)
    (hsymbols : ∀ name target, symbols.find? name = some target → target ≤ Text.maxInt64)
    (l : InstructionLine) : l.encodeWrapped symbols pc = l.encode symbols pc := by
  have hdisplacement : Operand.displacement symbols (Operand.wrappedDistance pc) =
      Operand.displacement symbols (Operand.distance pc) :=
    funext (Operand.displacement_congr fun name target hfind =>
      Operand.wrappedDistance_eq hpc (hsymbols name target hfind))
  unfold InstructionLine.encodeWrapped InstructionLine.encode InstructionLine.encodeBy
    Instruction.read
  rw [hdisplacement]

/-! ## The passes -/

/-- A source text is assembled exactly when every stage succeeds. -/
theorem assemble_eq_ok_iff {src : Text} {p : Program} :
    assemble src = .ok p ↔ ∃ code s, expandedCode src = .ok code ∧ survey code = .ok s ∧
      encodeAll s.symbols code = .ok p.placed ∧ p.symbols = s.symbols := by
  unfold assemble
  rw [bind_eq_ok_iff]
  constructor
  · rintro ⟨code, hcode, h⟩
    obtain ⟨s, hs, h⟩ := bind_eq_ok_iff.mp h
    obtain ⟨placed, hplaced, h⟩ := bind_eq_ok_iff.mp h
    have hp := Except.ok.inj h
    exact ⟨code, s, hcode, hs, hp ▸ hplaced, hp ▸ rfl⟩
  · rintro ⟨code, s, hcode, hs, hplaced, hsymbols⟩
    refine ⟨code, hcode, ?_⟩
    unfold assembleCode
    rw [hs, ok_bind, hplaced, ok_bind, ← hsymbols]
    rfl

section

variable {symbols : SymbolTable} {code : List Line} {placed : List PlacedWord}

/-- There is one word for each instruction line. -/
theorem length_encodeAll (h : encodeAll symbols code = .ok placed) :
    placed.length = (instructionLines code).length := by
  have hlen := (mapM_eq_ok_iff.mp h).length_eq
  rw [List.length_zipIdx] at hlen
  exact hlen.symm

/-- The instruction line with index `i` has been encoded at position `i + 1`. -/
theorem getElem?_encodeAll (h : encodeAll symbols code = .ok placed) {i : Nat}
    {l : InstructionLine} (hl : (instructionLines code)[i]? = some l) :
    ∃ instr, Instruction.ofTokens symbols (i + 1) l.head l.operands = .ok instr ∧
      placed[i]? = some ⟨l.num, instr.word⟩ := by
  obtain ⟨hi, hget⟩ := List.getElem?_eq_some_iff.mp hl
  have hi' : i < placed.length := (length_encodeAll h).symm ▸ hi
  have hpoint := (List.forall₂_iff_get.mp (mapM_eq_ok_iff.mp h)).2 i
    (by rw [List.length_zipIdx]; exact hi) hi'
  simp only [List.get_eq_getElem, List.getElem_zipIdx, hget] at hpoint
  obtain ⟨instr, hinstr, hw⟩ := place_eq_ok_iff.mp hpoint
  exact ⟨instr, Nat.add_comm 1 i ▸ hinstr, List.getElem?_eq_some_iff.mpr ⟨hi', hw⟩⟩

/-- Every word comes from an instruction line. -/
theorem exists_line_of_getElem? (h : encodeAll symbols code = .ok placed) {i : Nat}
    {w : PlacedWord} (hw : placed[i]? = some w) :
    ∃ l, (instructionLines code)[i]? = some l := by
  obtain ⟨hi, _⟩ := List.getElem?_eq_some_iff.mp hw
  exact ⟨_, List.getElem?_eq_getElem (length_encodeAll h ▸ hi)⟩

end

/-! ## Jumps -/

/-- The operand of a jump is a number, or it is a label and the displacement is the distance to
its position. -/
theorem displacement_cases {symbols : SymbolTable} {pc : Nat} {token : Text} {d : Displacement}
    (h : Operand.displacement symbols (Operand.distance pc) token = .ok d) :
    token.isSignedDecimal = true ∨
      ∃ t, symbols.find? token = some t ∧ d.val = (t : Int) - pc := by
  unfold Operand.displacement jumpLiteral? at h
  cases hlit : token.integer? with
  | some v =>
    -- what fits a displacement is small, so the text is really a number
    left
    cases hd : Displacement.ofInt? v with
    | none => simp [hlit, hd] at h
    | some d' =>
      have hv := Displacement.ofInt?_eq_some_iff.mp hd
      exact Text.isSignedDecimal_of_small hlit (hv ▸ d'.bounds.1) (hv ▸ d'.bounds.2)
  | none =>
    right
    cases hfind : symbols.find? token with
    | none => simp [hlit, hfind] at h
    | some t =>
      cases hd : Displacement.ofInt? (Operand.distance pc t) with
      | none => simp [hlit, hfind, hd] at h
      | some d' =>
        simp only [hlit, hfind, hd, Except.ok.injEq] at h
        exact ⟨t, rfl, h ▸ Displacement.ofInt?_eq_some_iff.mp hd⟩

/-- A line whose first token spells the jump opcode is encoded as a jump, and its only operand
gives the displacement. -/
theorem ofTokens_jump {symbols : SymbolTable} {pc : Nat} {head : Text} {operands : List Text}
    {instr : Instruction} (hop : Opcode.ofToken? head = some .jump)
    (h : Instruction.ofTokens symbols pc head operands = .ok instr) :
    ∃ token d, operands = [token] ∧
      Operand.displacement symbols (Operand.distance pc) token = .ok d ∧
      instr = .jump d := by
  unfold Instruction.ofTokens Instruction.read at h
  simp only [hop] at h
  obtain ⟨d, hd, hinstr⟩ := map_eq_ok_iff.mp h
  unfold Operand.single at hd
  split at hd
  · next token => exact ⟨token, d, rfl, hd, hinstr.symm⟩
  · cases hd

end Glyph8
