import Glyph8.Proofs.Assembly.CleanLabels
import Glyph8.Proofs.Assembly.Encoding
import Glyph8.Proofs.Assembly.Expanding

/-!
# Which error is reported

A source text can be wrong in many places, and one error is reported. This module says which.

Sections, macros, labels and instructions are looked at one after the other, and each stage stops at
its first error. So an error of an earlier stage hides all errors of later ones: a bad label is
reported before any instruction, even if the instruction stands far above it.

Within the second pass, instruction lines are looked at from the top of the expanded code. That the
first of them which cannot be encoded is also on the smallest line of the source is not immediate,
because a macro's body comes in the place of its use. It holds because expansion keeps line numbers
in order, so an earlier instruction line never has a larger number (`exists_firstUnencodable`).

The first section sorts faults by their kind. What is wrong with an instruction line is of one of
five kinds (`kind_of_ofTokens_error`), and these are not the kinds of the other stages. Hence the
kind of an error tells the stage that it comes from.

The main result is `assemble_error_order`. It also says that only a missing code section is reported
on no line.
-/

namespace Glyph8

/-! ## Faults of instruction lines -/

namespace Fault

/-- What can be wrong with an instruction line. -/
def instructionKinds : List Kind :=
  [.unknownOpcode, .operandParseError, .unknownLabel, .displacementOverflow, .unknownSyscall]

end Fault

section

variable {fault : Fault} {op : Opcode} {operands : List Text}

theorem register_error {place : RegisterPlace} {token : Text}
    (h : Operand.register place token = .error fault) : fault.kind = .operandParseError := by
  unfold Operand.register at h
  split at h
  · cases h
  · rw [← Except.error.inj h]
    rfl

theorem immediate_error {bits : Nat} {token : Text}
    (h : Operand.immediate bits token = .error fault) : fault.kind = .operandParseError := by
  unfold Operand.immediate at h
  split at h
  · rw [← Except.error.inj h]
    rfl
  · split at h
    · cases h
    · rw [← Except.error.inj h]
      rfl

/-- Whatever is wrong with the operands of the register format, it is the same kind of error. -/
theorem registerForm_error {build : Register → Register → Fin 2 → Instruction}
    (h : Operand.registerForm op build operands = .error fault) :
    fault.kind = .operandParseError := by
  unfold Operand.registerForm at h
  split at h
  · rcases bind_eq_error_iff.mp h with h | ⟨_, _, h⟩
    · exact register_error h
    · rcases bind_eq_error_iff.mp h with h | ⟨_, _, h⟩
      · exact register_error h
      · rcases bind_eq_error_iff.mp h with h | ⟨_, _, h⟩
        · exact immediate_error h
        · cases h
  · rw [← Except.error.inj h]
    rfl

/-- Whatever is wrong with the operands of the immediate format, it is the same kind of error. -/
theorem immediateForm_error {build : Register → Fin 8 → Instruction}
    (h : Operand.immediateForm op build operands = .error fault) :
    fault.kind = .operandParseError := by
  unfold Operand.immediateForm at h
  split at h
  · rcases bind_eq_error_iff.mp h with h | ⟨_, _, h⟩
    · exact register_error h
    · rcases bind_eq_error_iff.mp h with h | ⟨_, _, h⟩
      · exact immediate_error h
      · cases h
  · rw [← Except.error.inj h]
    rfl

/-- A jump fails for want of a label or for its distance. -/
theorem displacement_error {symbols : SymbolTable} {pc : Nat} {token : Text}
    (h : Operand.displacement symbols (Operand.distance pc) token = .error fault) :
    fault.kind = .unknownLabel ∨ fault.kind = .displacementOverflow := by
  unfold Operand.displacement at h
  split at h
  · split at h
    · cases h
    · rw [← Except.error.inj h]
      exact Or.inr rfl
  · split at h
    · rw [← Except.error.inj h]
      exact Or.inl rfl
    · split at h
      · cases h
      · rw [← Except.error.inj h]
        exact Or.inr rfl

/-- A system call fails for its name. -/
theorem systemCall_error {token : Text} (h : Operand.systemCall token = .error fault) :
    fault.kind = .unknownSyscall := by
  unfold Operand.systemCall at h
  split at h
  · cases h
  · rw [← Except.error.inj h]
    rfl

/-- A single operand fails by its count or by what is read from it. -/
theorem map_single_error {α β : Type} {read : Text → Except Fault α} {build : α → β}
    (h : (Operand.single op read operands).map build = .error fault) :
    fault.kind = .operandParseError ∨ ∃ token, operands = [token] ∧ read token = .error fault := by
  unfold Operand.single at h
  split at h
  · next token =>
    cases hread : read token with
    | ok a =>
      rw [hread] at h
      cases h
    | error fault' =>
      rw [hread] at h
      exact Or.inr ⟨token, rfl, hread.trans (congrArg Except.error (Except.error.inj h))⟩
  · rw [← Except.error.inj h]
    exact Or.inl rfl

/-- An instruction line has one of five kinds of faults. -/
theorem kind_of_ofTokens_error {symbols : SymbolTable} {pc : Nat} {head : Text}
    (h : Instruction.ofTokens symbols pc head operands = .error fault) :
    fault.kind ∈ Fault.instructionKinds := by
  have hparse : fault.kind = .operandParseError → fault.kind ∈ Fault.instructionKinds := by
    intro hkind
    rw [hkind]
    decide
  unfold Instruction.ofTokens Instruction.read at h
  cases hop : Opcode.ofToken? head with
  | none =>
    simp only [hop] at h
    rw [← Except.error.inj h]
    exact List.mem_cons_self
  | some o =>
    simp only [hop] at h
    -- the two formats share their faults; jumps and system calls have one more each
    cases o with
    | add | sub | ifeq => exact hparse (registerForm_error h)
    | addi | subi | li => exact hparse (immediateForm_error h)
    | jump =>
      rcases map_single_error h with hkind | ⟨token, _, htoken⟩
      · exact hparse hkind
      · rcases displacement_error htoken with hkind | hkind
        · rw [hkind]
          decide
        · rw [hkind]
          decide
    | syscall =>
      rcases map_single_error h with hkind | ⟨token, _, htoken⟩
      · exact hparse hkind
      · rw [systemCall_error htoken]
        decide

end

/-! ## The second pass -/

section

variable {symbols : SymbolTable} {code : List Line} {l : InstructionLine} {d : Diagnostic}

/-- An instruction line that cannot be encoded is reported on its own line. -/
theorem encode_error {pc : Nat} (h : l.encode symbols pc = .error d) :
    d.line = l.num ∧ d.kind ∈ Fault.instructionKinds := by
  obtain ⟨hline, hi⟩ := encode_eq_error_iff.mp h
  exact ⟨hline, kind_of_ofTokens_error hi⟩

/-- Keeping the line number adds no way to fail. -/
theorem place_eq_error_iff {pc : Nat} :
    l.place symbols pc = .error d ↔ l.encode symbols pc = .error d := by
  unfold InstructionLine.place
  cases l.encode symbols pc with
  | ok w => simp [Except.map]
  | error e => simp [Except.map]

/-- `d` is the error of the instruction line `l`, the first one that cannot be encoded. No
instruction line that cannot be encoded has a smaller number. -/
structure FirstUnencodable (code : List Line) (i : Nat) (l : InstructionLine) (d : Diagnostic) :
    Prop where
  line : (instructionLines code)[i]? = some l
  error : l.encode (labelTable code) (i + 1) = .error d
  num : d.line = l.num
  earlier : ∀ j < i, ∀ k, (instructionLines code)[j]? = some k →
    ∃ w, k.encode (labelTable code) (j + 1) = .ok w
  least : ∀ (j : Nat) (k : InstructionLine) (e : Diagnostic), (instructionLines code)[j]? = some k →
    k.encode (labelTable code) (j + 1) = .error e → d.line ≤ k.num

/-- The second pass stops at the first instruction line that cannot be encoded. -/
theorem encodeAll_error (h : encodeAll symbols code = .error d) :
    ∃ (i : Nat) (l : InstructionLine), (instructionLines code)[i]? = some l ∧
      l.encode symbols (i + 1) = .error d ∧
        ∀ j < i, ∀ k, (instructionLines code)[j]? = some k →
          ∃ w, k.encode symbols (j + 1) = .ok w := by
  unfold encodeAll at h
  obtain ⟨before, ⟨l, pc⟩, after, hsplit, hbefore, hl⟩ := mapM_eq_error_iff.mp h
  have hget : ∀ j k, (instructionLines code)[j]? = some k →
      ((instructionLines code).zipIdx 1)[j]? = some (k, j + 1) := by
    intro j k hk
    rw [List.getElem?_zipIdx, hk, Nat.add_comm 1 j]
    rfl
  have hlast : ((instructionLines code).zipIdx 1)[before.length]? = some (l, pc) := by
    rw [hsplit, List.getElem?_append_right (Nat.le_refl _), Nat.sub_self, List.getElem?_cons_zero]
  have hli : (instructionLines code)[before.length]? = some l := by
    rw [List.getElem?_zipIdx] at hlast
    obtain ⟨l', hl', heq⟩ := Option.map_eq_some_iff.mp hlast
    rw [hl', (Prod.mk.inj heq).1]
  -- the positions that are passed along are the indices, from one on
  have hpc : pc = before.length + 1 := by
    have := (hget _ _ hli).symm.trans hlast
    exact (Prod.mk.inj (Option.some.inj this)).2.symm
  refine ⟨before.length, l, hli, hpc ▸ place_eq_error_iff.mp hl, ?_⟩
  intro j hj k hk
  -- earlier lines stand before the one that failed, so they were encoded
  have hmem : (k, j + 1) ∈ before := by
    have hkj := hget j k hk
    rw [hsplit, List.getElem?_append_left hj] at hkj
    exact List.mem_of_getElem? hkj
  obtain ⟨w, hw⟩ := hbefore (k, j + 1) hmem
  obtain ⟨word, hword, _⟩ := map_eq_ok_iff.mp hw
  exact ⟨word, hword⟩

/-- In code whose lines are in order, the first line that fails has the smallest number. -/
theorem exists_firstUnencodable (horder : code.Pairwise (·.num ≤ ·.num))
    (h : encodeAll (labelTable code) code = .error d) : ∃ i l, FirstUnencodable code i l d := by
  obtain ⟨i, l, hl, herror, hearlier⟩ := encodeAll_error h
  have hnum := (encode_error herror).1
  refine ⟨i, l, hl, herror, hnum, hearlier, ?_⟩
  intro j k e hk hfails
  rw [hnum]
  rcases Nat.lt_trichotomy j i with hlt | rfl | hgt
  · obtain ⟨w, hw⟩ := hearlier j hlt k hk
    rw [hfails] at hw
    cases hw
  · rw [hl] at hk
    exact Int.le_of_eq (congrArg InstructionLine.num (Option.some.inj hk))
  · -- it comes after the first one, and numbers do not go down
    obtain ⟨hi, rfl⟩ := List.getElem?_eq_some_iff.mp hl
    obtain ⟨hj, rfl⟩ := List.getElem?_eq_some_iff.mp hk
    exact List.pairwise_iff_getElem.mp (pairwise_num_instructionLines horder) i j hi hj hgt

end

/-! ## The whole assembly -/

section

variable {src : Text} {code : List Line} {d : Diagnostic}

/-- Assembling expanded code fails in the first pass or, if the labels are clean, in the second. -/
theorem assembleCode_error (horder : code.Pairwise (·.num ≤ ·.num))
    (h : assembleCode code = .error d) :
    ¬ CleanLabels code ∧ FirstBadLabel code d ∨
      CleanLabels code ∧ ∃ i l, FirstUnencodable code i l d := by
  unfold assembleCode at h
  rcases bind_eq_error_iff.mp h with h | ⟨s, hs, h⟩
  · exact Or.inl ⟨(survey_error h).not_clean, survey_error h⟩
  · rcases bind_eq_error_iff.mp h with h | ⟨_, _, h⟩
    · rw [symbols_of_survey hs] at h
      exact Or.inr ⟨cleanLabels_of_survey hs, exists_firstUnencodable horder h⟩
    · cases h

/-- A failure of expanded code is on one of its lines, and not for want of a code section. -/
theorem assembleCode_error_line (horder : code.Pairwise (·.num ≤ ·.num))
    (h : assembleCode code = .error d) :
    d.kind ≠ .missingCodeSection ∧ ∃ line ∈ code, d.line = line.num := by
  rcases assembleCode_error horder h with ⟨_, hbad⟩ | ⟨_, i, l, hfirst⟩
  · obtain ⟨before, line, after, name, rfl, _, _, hline, hfault⟩ := hbad
    refine ⟨?_, line, List.mem_append_right _ List.mem_cons_self, hline⟩
    unfold Diagnostic.kind
    rcases hfault with ⟨_, hfault⟩ | ⟨_, hfault⟩
    · rw [hfault]
      exact nofun
    · rw [hfault]
      exact nofun
  · constructor
    · intro hkind
      have hmem := (encode_error hfirst.error).2
      rw [hkind] at hmem
      exact absurd hmem (by decide)
    · obtain ⟨line, hline, hnum⟩ :=
        exists_line_of_mem_instructionLines (List.mem_of_getElem? hfirst.line)
      exact ⟨line, hline, hfirst.num.trans hnum⟩

/-- Where assembling fails. -/
theorem assemble_error_line (h : assemble src = .error d) :
    d = ⟨0, .missingCodeSection⟩ ∨
      d.kind ≠ .missingCodeSection ∧ 1 ≤ d.line ∧ d.line ≤ src.lines.length := by
  unfold assemble at h
  rcases bind_eq_error_iff.mp h with h | ⟨code, hcode, h⟩
  · unfold expandedCode at h
    rcases bind_eq_error_iff.mp h with h | ⟨parts, hparts, h⟩
    · exact sections_error h
    · obtain ⟨before, marker, after, hlines, _, hcode⟩ := sections_eq_ok_iff.mp hparts
      obtain ⟨l, hl, name, rfl⟩ := expand_error h
      rw [hcode] at hl
      obtain ⟨hlo, hhi⟩ := num_of_mem_code hlines hl
      have hfirst : 1 ≤ l.num := by omega
      exact Or.inr ⟨nofun, hfirst, hhi⟩
  · obtain ⟨hkind, line, hline, hd⟩ :=
      assembleCode_error_line (pairwise_num_expandedCode hcode) h
    rw [hd]
    exact Or.inr ⟨hkind, num_of_mem_expandedCode hcode hline⟩

end

/-- Only a missing code section is reported on no line, and every other failure on a line of the
source text. Once macros are expanded, a label that is empty or repeated is reported, the first such
label. If there is none, the first instruction line that cannot be encoded is reported, and no
instruction line that cannot be encoded is on a smaller line. -/
theorem assemble_error_order {src : Text} {d : Diagnostic} (h : assemble src = .error d) :
    (d.line = 0 ↔ d.kind = .missingCodeSection) ∧
    (d.kind ≠ .missingCodeSection → 1 ≤ d.line ∧ d.line ≤ src.lines.length) ∧
    ∀ code, expandedCode src = .ok code →
      (CleanLabels code → ∃ i l, FirstUnencodable code i l d) ∧
      (¬ CleanLabels code → FirstBadLabel code d) := by
  refine ⟨?_, ?_, ?_⟩
  · rcases assemble_error_line h with rfl | ⟨hkind, hlo, _⟩
    · exact ⟨fun _ => rfl, fun _ => rfl⟩
    · constructor
      · intro hline
        omega
      · intro hmissing
        exact absurd hmissing hkind
  · intro hkind
    rcases assemble_error_line h with rfl | ⟨_, hline⟩
    · exact absurd rfl hkind
    · exact hline
  · intro code hcode
    have hassemble : assembleCode code = .error d := by
      unfold assemble at h
      rw [hcode, ok_bind] at h
      exact h
    -- numbers do not go down in expanded code, so the first line that fails has the least one
    rcases assembleCode_error (pairwise_num_expandedCode hcode) hassemble with
      ⟨hnot, hbad⟩ | ⟨hclean, hfirst⟩
    · exact ⟨fun hclean => absurd hclean hnot, fun _ => hbad⟩
    · exact ⟨fun _ => hfirst, fun hnot => absurd hclean hnot⟩

/-- A macro with two lines that cannot be encoded, and a jump to a label that is not defined. -/
def troubledSource : Text :=
  utf8 "🔓 m\n🤖 📢\nbad _\nworse _\n🔒\n💬\nm 1\n♿ nowhere"

/-- The same lines, followed by an empty label and a repeated one. -/
def mislabelledSource : Text := troubledSource ++ utf8 "\na:\n:\na:"

/-- Without a code marker no line is named; the first bad line of the macro comes before the bad
jump; and an empty label comes before both. -/
theorem assemble_error_order_each :
    (∃ d, assemble (utf8 "🤖 📢") = .error d ∧ d.line = 0 ∧ d.kind = .missingCodeSection) ∧
    (∃ code i l, expandedCode troubledSource = .ok code ∧
      FirstUnencodable code i l ⟨7, .unknownOpcode (utf8 "bad")⟩) ∧
    ∃ code, expandedCode mislabelledSource = .ok code ∧ FirstBadLabel code ⟨10, .emptyLabel⟩ := by
  refine ⟨?_, ?_, ?_⟩
  · have h : assemble (utf8 "🤖 📢") = .error ⟨0, .missingCodeSection⟩ := by decide +kernel
    exact ⟨_, h, (assemble_error_order h).1.mpr rfl, rfl⟩
  · have h : assemble troubledSource = .error ⟨7, .unknownOpcode (utf8 "bad")⟩ := by
      decide +kernel
    have hclean : (expandedCode troubledSource).map (fun code => decide (CleanLabels code)) =
        .ok true := by decide +kernel
    obtain ⟨code, hcode, hclean⟩ := map_eq_ok_iff.mp hclean
    obtain ⟨i, l, hfirst⟩ :=
      ((assemble_error_order h).2.2 code hcode).1 (of_decide_eq_true hclean)
    exact ⟨code, i, l, hcode, hfirst⟩
  · have h : assemble mislabelledSource = .error ⟨10, .emptyLabel⟩ := by decide +kernel
    have hclean : (expandedCode mislabelledSource).map (fun code => decide (CleanLabels code)) =
        .ok false := by decide +kernel
    obtain ⟨code, hcode, hclean⟩ := map_eq_ok_iff.mp hclean
    exact ⟨code, hcode, ((assemble_error_order h).2.2 code hcode).2 (of_decide_eq_false hclean)⟩

end Glyph8
