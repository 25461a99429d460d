import Glyph8.Proofs.Assembly.ErrorOrder

/-!
# Targets of jumps

The targets of jumps are looked at twice. When the symbol table is built, every jump is checked to
go to a number or to a label of the table. When a line is encoded, the target is turned into a
displacement. The two do not look at the same thing: the first looks at the operand after any jump
opcode, however many operands there are, and the second counts the operands first.

`SymbolTable.Resolves` is the condition on a target that both share: it is a number, or a label of
the table. A target that is resolved is never an unknown label for the second pass; it can only be
too far away (`displacement_error_of_resolves`). One that is not resolved keeps the second pass from
encoding the jump (`displacement_of_not_resolves`), if only because there are too many operands
(`resolves_of_encode`).

From single lines it goes on to the code. The references that the first pass collects are those of
the instruction lines (`jumps_of_survey`), by the step lemma `jumps_visit`. So building the table
fails at the first unresolved target (`FirstUnresolved`), and the second pass fails there or
earlier.

The main result is `passes_agree_on_targets`: the two passes agree on which code has all its
targets.
-/

namespace Glyph8

/-! ## One target -/

/-- A target is a number, or a label of the table. -/
def SymbolTable.Resolves (symbols : SymbolTable) (target : Text) : Prop :=
  (jumpLiteral? target).isSome = true ∨ symbols.contains target = true

section

variable {symbols : SymbolTable} {target : Text}

/-- A target that is not resolved is an unknown label. -/
theorem displacement_of_not_resolves (h : ¬ symbols.Resolves target) (pc : Nat) :
    Operand.displacement symbols (Operand.distance pc) target =
      .error (.undefinedLabel target) := by
  obtain ⟨hliteral, hlabel⟩ := not_or.mp h
  have hliteral : jumpLiteral? target = none := Option.not_isSome_iff_eq_none.mp hliteral
  have hlabel : symbols.find? target = none := Option.not_isSome_iff_eq_none.mp hlabel
  unfold Operand.displacement
  simp only [hliteral, hlabel]

/-- A target that is resolved can only be too far away. -/
theorem displacement_error_of_resolves (h : symbols.Resolves target) {pc : Nat} {fault : Fault}
    (hfault : Operand.displacement symbols (Operand.distance pc) target = .error fault) :
    fault.kind = .displacementOverflow := by
  unfold Operand.displacement at hfault
  split at hfault
  · split at hfault
    · cases hfault
    · rw [← Except.error.inj hfault]
      rfl
  · next hliteral =>
    split at hfault
    · next hlabel =>
      unfold SymbolTable.Resolves SymbolTable.contains at h
      rw [hliteral, hlabel] at h
      rcases h with h | h <;> cases h
    · split at hfault
      · cases hfault
      · rw [← Except.error.inj hfault]
        rfl

variable {j : JumpReference}

/-- The check of a reference passes exactly if its target is resolved. -/
theorem check_eq_ok_iff : j.check symbols = .ok () ↔ symbols.Resolves j.target := by
  unfold JumpReference.check SymbolTable.Resolves
  rw [← Bool.or_eq_true]
  split
  · next h => exact ⟨fun _ => h, fun _ => rfl⟩
  · next h => exact ⟨nofun, fun hresolves => absurd hresolves h⟩

/-- The check names the target that is not resolved, on the line of the jump. -/
theorem check_eq_error_iff {d : Diagnostic} :
    j.check symbols = .error d ↔
      ¬ symbols.Resolves j.target ∧ d = ⟨j.line, .undefinedLabel j.target⟩ := by
  rw [← check_eq_ok_iff]
  unfold JumpReference.check
  split
  · simp
  · simp [eq_comm]

end

/-! ## One instruction line -/

/-- The target that a line refers to, if it is a jump with an operand, and the line's number. -/
def InstructionLine.reference? (l : InstructionLine) : Option JumpReference :=
  (Survey.jumpTarget? l.head l.operands).map fun target => ⟨target, l.num⟩

section

variable {symbols : SymbolTable} {l : InstructionLine} {pc : Nat}

theorem reference?_eq_some_iff {j : JumpReference} :
    l.reference? = some j ↔
      Survey.jumpTarget? l.head l.operands = some j.target ∧ j.line = l.num := by
  unfold InstructionLine.reference?
  rw [Option.map_eq_some_iff]
  constructor
  · rintro ⟨target, htarget, rfl⟩
    exact ⟨htarget, rfl⟩
  · rintro ⟨htarget, hline⟩
    exact ⟨j.target, htarget, by rw [← hline]⟩

/-- The target is the first operand, also if others follow it. -/
theorem jumpTarget?_eq_some_iff {head target : Text} {operands : List Text} :
    Survey.jumpTarget? head operands = some target ↔
      Opcode.ofToken? head = some .jump ∧ operands.head? = some target := by
  unfold Survey.jumpTarget?
  split
  · next hop => simp [hop]
  · next hop => simp [hop]

/-- A jump whose first operand is not resolved cannot be encoded: if it is the only operand it is no
displacement, and otherwise there are too many. -/
theorem resolves_of_encode {target : Text} {w : Word} (h : l.encode symbols pc = .ok w)
    (hjump : Survey.jumpTarget? l.head l.operands = some target) : symbols.Resolves target := by
  obtain ⟨i, hi, _⟩ := place_eq_ok_iff.mp (map_eq_ok_iff.mpr ⟨w, h, rfl⟩)
  obtain ⟨hop, hfirst⟩ := jumpTarget?_eq_some_iff.mp hjump
  obtain ⟨token, d, hoperands, hd, _⟩ := ofTokens_jump hop hi
  rw [hoperands, List.head?_cons] at hfirst
  obtain rfl := Option.some.inj hfirst
  by_contra hnot
  rw [displacement_of_not_resolves hnot pc] at hd
  cases hd

/-- An unknown label is reported only for a jump whose first operand is not resolved. -/
theorem exists_target_of_unknownLabel {e : Diagnostic} (h : l.encode symbols pc = .error e)
    (hkind : e.kind = .unknownLabel) :
    ∃ target, Survey.jumpTarget? l.head l.operands = some target ∧ ¬ symbols.Resolves target := by
  obtain ⟨_, hi⟩ := encode_eq_error_iff.mp h
  -- every other fault of an instruction line is of another kind
  have hne : ∀ {k : Kind}, e.fault.kind = k → k ≠ .unknownLabel → False :=
    fun hk hne => hne (hk.symm.trans hkind)
  unfold Instruction.ofTokens Instruction.read at hi
  cases hop : Opcode.ofToken? l.head with
  | none =>
    simp only [hop] at hi
    have hfault : .unknownOpcode l.head = e.fault := Except.error.inj hi
    exact (hne (congrArg Fault.kind hfault.symm) nofun).elim
  | some op =>
    simp only [hop] at hi
    cases op with
    | add | sub | ifeq => exact (hne (registerForm_error hi) nofun).elim
    | addi | subi | li => exact (hne (immediateForm_error hi) nofun).elim
    | syscall =>
      rcases map_single_error hi with hk | ⟨token, _, htoken⟩
      · exact (hne hk nofun).elim
      · exact (hne (systemCall_error htoken) nofun).elim
    | jump =>
      rcases map_single_error hi with hk | ⟨token, hoperands, htoken⟩
      · exact (hne hk nofun).elim
      · refine ⟨token, jumpTarget?_eq_some_iff.mpr ⟨hop, by rw [hoperands]; rfl⟩, ?_⟩
        intro hresolves
        exact hne (displacement_error_of_resolves hresolves htoken) nofun

end

/-! ## The first pass -/

section

variable {code : List Line} {s : Survey}

/-- One more line adds the reference that it makes, if it makes one. -/
theorem jumps_visit {s' : Survey} {line : Line} (h : s.visit line = .ok s') :
    s'.jumps = s.jumps ++ (instructionLines [line]).filterMap InstructionLine.reference? := by
  unfold Survey.visit at h
  unfold instructionLines
  cases hs : line.statement with
  | blank =>
    simp only [hs, Except.ok.injEq] at h
    simp [← h, InstructionLine.ofLine?, hs]
  | label name =>
    simp only [hs] at h
    split at h
    · cases h
    · split at h
      · cases h
      · simp only [Except.ok.injEq] at h
        simp [← h, InstructionLine.ofLine?, hs]
  | instruction head operands =>
    simp only [hs, Except.ok.injEq] at h
    rw [← h]
    cases hjump : Survey.jumpTarget? head operands with
    | none => simp [InstructionLine.ofLine?, InstructionLine.reference?, hs, hjump]
    | some target => simp [InstructionLine.ofLine?, InstructionLine.reference?, hs, hjump]

/-- The references of a successful first pass are those of the instruction lines, in order. -/
theorem jumps_of_survey (h : survey code = .ok s) :
    s.jumps = (instructionLines code).filterMap InstructionLine.reference? := by
  have hstep : ∀ (done : List Line) (t : Survey) (line : Line) (t' : Survey),
      t.jumps = (instructionLines done).filterMap InstructionLine.reference? →
      t.visit line = .ok t' →
        t'.jumps = (instructionLines (done ++ [line])).filterMap InstructionLine.reference? := by
    intro done t line t' ht hvisit
    rw [jumps_visit hvisit, ht, instructionLines_append, List.filterMap_append]
  exact foldlM_invariant hstep code [] {} s rfl h

/-- A table is built exactly if the labels are clean and every target is resolved. -/
theorem buildSymbols_eq_ok_iff {symbols : SymbolTable} :
    buildSymbols code = .ok symbols ↔ ∃ s, survey code = .ok s ∧ symbols = s.symbols ∧
      ∀ l ∈ instructionLines code, ∀ target,
        Survey.jumpTarget? l.head l.operands = some target → symbols.Resolves target := by
  unfold buildSymbols
  rw [bind_eq_ok_iff]
  constructor
  · rintro ⟨s, hs, h⟩
    obtain ⟨_, hchecks, h⟩ := bind_eq_ok_iff.mp h
    obtain rfl := Except.ok.inj h
    refine ⟨s, hs, rfl, ?_⟩
    intro l hl target htarget
    rw [jumps_of_survey hs] at hchecks
    -- the survey has noted every jump, so this one has been checked
    have hmem : ⟨target, l.num⟩ ∈ (instructionLines code).filterMap InstructionLine.reference? :=
      List.mem_filterMap.mpr ⟨l, hl, reference?_eq_some_iff.mpr ⟨htarget, rfl⟩⟩
    exact check_eq_ok_iff.mp (forM_eq_ok_iff.mp hchecks _ hmem)
  · rintro ⟨s, hs, rfl, hresolves⟩
    refine ⟨s, hs, bind_eq_ok_iff.mpr ⟨(), forM_eq_ok_iff.mpr ?_, rfl⟩⟩
    intro j hj
    rw [jumps_of_survey hs] at hj
    obtain ⟨l, hl, hreference⟩ := List.mem_filterMap.mp hj
    exact check_eq_ok_iff.mpr (hresolves l hl _ (reference?_eq_some_iff.mp hreference).1)

/-- The instruction line with index `i` is the first one that refers to a target that the table does
not resolve. -/
structure FirstUnresolved (symbols : SymbolTable) (code : List Line) (i : Nat)
    (l : InstructionLine) (target : Text) : Prop where
  line : (instructionLines code)[i]? = some l
  jump : Survey.jumpTarget? l.head l.operands = some target
  unresolved : ¬ symbols.Resolves target
  earlier : ∀ j < i, ∀ k other, (instructionLines code)[j]? = some k →
    Survey.jumpTarget? k.head k.operands = some other → symbols.Resolves other

/-- A table is not built because the first pass fails, or at the first target that is not resolved.
-/
theorem buildSymbols_eq_error {d : Diagnostic} (h : buildSymbols code = .error d) :
    survey code = .error d ∨ ∃ s i l target, survey code = .ok s ∧
      FirstUnresolved s.symbols code i l target ∧ d = ⟨l.num, .undefinedLabel target⟩ := by
  unfold buildSymbols at h
  rcases bind_eq_error_iff.mp h with h | ⟨s, hs, h⟩
  · exact Or.inl h
  · rcases bind_eq_error_iff.mp h with h | ⟨_, _, h⟩
    · right
      obtain ⟨before, j, after, hjumps, hbefore, hj⟩ := exists_of_forM_error h
      obtain ⟨hunresolved, rfl⟩ := check_eq_error_iff.mp hj
      -- the references before this one come from the lines before this line
      rw [jumps_of_survey hs] at hjumps
      obtain ⟨upper, rest, hlines, hupper, hrest⟩ := List.filterMap_eq_append_iff.mp hjumps
      obtain ⟨quiet, l, lower, rfl, hquiet, hl, _⟩ := List.filterMap_eq_cons_iff.mp hrest
      obtain ⟨hjump, hline⟩ := reference?_eq_some_iff.mp hl
      rw [← List.append_assoc] at hlines
      refine ⟨s, (upper ++ quiet).length, l, j.target, hs, ⟨?_, hjump, hunresolved, ?_⟩, ?_⟩
      · rw [hlines, List.getElem?_append_right (Nat.le_refl _), Nat.sub_self,
          List.getElem?_cons_zero]
      · intro i hi k other hk hother
        rw [hlines, List.getElem?_append_left hi] at hk
        have hreference : k.reference? = some ⟨other, k.num⟩ :=
          reference?_eq_some_iff.mpr ⟨hother, rfl⟩
        rcases List.mem_append.mp (List.mem_of_getElem? hk) with hmem | hmem
        · have hbefore' := hbefore ⟨other, k.num⟩ (by
            rw [← hupper]
            exact List.mem_filterMap.mpr ⟨k, hmem, hreference⟩)
          exact check_eq_ok_iff.mp hbefore'
        · rw [hquiet k hmem] at hreference
          cases hreference
      · rw [hline]
    · cases h

end

/-! ## Both passes -/

section

variable {symbols : SymbolTable} {code : List Line} {i : Nat} {l : InstructionLine} {target : Text}

/-- The second pass does not get past a target that is not resolved. -/
theorem FirstUnresolved.encodeAll (h : FirstUnresolved symbols code i l target) :
    ∃ j ≤ i, ∃ k e, (instructionLines code)[j]? = some k ∧ k.encode symbols (j + 1) = .error e ∧
      encodeAll symbols code = .error e := by
  cases hall : Glyph8.encodeAll symbols code with
  | ok placed =>
    obtain ⟨instr, hinstr, _⟩ := getElem?_encodeAll hall h.line
    obtain ⟨w, hw, _⟩ := map_eq_ok_iff.mp (place_eq_ok_iff.mpr ⟨instr, hinstr, rfl⟩)
    exact absurd (resolves_of_encode hw h.jump) h.unresolved
  | error e =>
    obtain ⟨j, k, hk, he, hearlier⟩ := encodeAll_error hall
    refine ⟨j, ?_, k, e, hk, he, rfl⟩
    by_contra hlate
    obtain ⟨w, hw⟩ := hearlier i (Nat.lt_of_not_le hlate) l h.line
    exact h.unresolved (resolves_of_encode hw h.jump)

/-- The first pass fails only for a label. -/
theorem kind_of_survey_error {d : Diagnostic} (h : survey code = .error d) :
    d.kind = .invalidLabel ∨ d.kind = .duplicateLabel := by
  obtain ⟨_, _, _, _, _, _, _, _, hfault⟩ := survey_error h
  unfold Diagnostic.kind
  rcases hfault with ⟨_, hfault⟩ | ⟨_, hfault⟩
  · rw [hfault]
    exact Or.inl rfl
  · rw [hfault]
    exact Or.inr rfl

end

/-- Building the table of symbols, which checks the targets of jumps, agrees with the second pass.
If the labels are clean and every instruction line can be encoded, the table is built. If the table
is built, no instruction line has an unknown label. If it is not built for want of a label, the
second pass fails at the jump to that label or before it. For any other reason it fails as the first
pass does. -/
theorem passes_agree_on_targets (code : List Line) :
    (∀ s, survey code = .ok s →
      (∀ (i : Nat) (l : InstructionLine), (instructionLines code)[i]? = some l →
        ∃ w, l.encode s.symbols (i + 1) = .ok w) →
      buildSymbols code = .ok s.symbols) ∧
    (∀ symbols, buildSymbols code = .ok symbols →
      ∀ (i : Nat) (l : InstructionLine) (e : Diagnostic), (instructionLines code)[i]? = some l →
        l.encode symbols (i + 1) = .error e → e.kind ≠ .unknownLabel) ∧
    (∀ d, buildSymbols code = .error d → d.kind = .unknownLabel →
      ∃ s i l target, survey code = .ok s ∧ FirstUnresolved s.symbols code i l target ∧
        d = ⟨l.num, .undefinedLabel target⟩ ∧
        ∃ j ≤ i, ∃ k e, (instructionLines code)[j]? = some k ∧
          k.encode s.symbols (j + 1) = .error e ∧ encodeAll s.symbols code = .error e) ∧
    ∀ d, survey code = .error d ↔
      buildSymbols code = .error d ∧ (d.kind = .invalidLabel ∨ d.kind = .duplicateLabel) := by
  refine ⟨?_, ?_, ?_, ?_⟩
  · intro s hs hencode
    refine buildSymbols_eq_ok_iff.mpr ⟨s, hs, rfl, ?_⟩
    intro l hl target htarget
    obtain ⟨i, hi⟩ := List.getElem?_of_mem hl
    obtain ⟨w, hw⟩ := hencode i l hi
    exact resolves_of_encode hw htarget
  · intro symbols hsymbols i l e hl he hkind
    obtain ⟨_, _, _, hresolves⟩ := buildSymbols_eq_ok_iff.mp hsymbols
    obtain ⟨target, htarget, hnot⟩ := exists_target_of_unknownLabel he hkind
    exact hnot (hresolves l (List.mem_of_getElem? hl) target htarget)
  · intro d hd hkind
    rcases buildSymbols_eq_error hd with hsurvey | ⟨s, i, l, target, hs, hfirst, hd⟩
    · -- the survey itself fails for other reasons only
      rcases kind_of_survey_error hsurvey with h | h
      · exact nomatch h.symm.trans hkind
      · exact nomatch h.symm.trans hkind
    · exact ⟨s, i, l, target, hs, hfirst, hd, hfirst.encodeAll⟩
  · intro d
    constructor
    · intro h
      refine ⟨?_, kind_of_survey_error h⟩
      unfold buildSymbols
      rw [h, error_bind]
    · rintro ⟨h, hkind⟩
      rcases buildSymbols_eq_error h with hsurvey | ⟨_, _, _, _, _, _, rfl⟩
      · exact hsurvey
      · -- an undefined label is neither of the two
        rcases hkind with hkind | hkind <;> cases hkind

/-- A loop. -/
def loopingLines : List Line := numbered 2 [utf8 "top:", utf8 "♿ top"]

/-- A jump to a label, with an operand too many. -/
def crowdedLines : List Line := numbered 2 [utf8 "top:", utf8 "♿ top 1"]

/-- Two jumps to labels that are not defined, the first with an operand too many. -/
def strandedLines : List Line := numbered 2 [utf8 "♿ nowhere 1", utf8 "♿ elsewhere"]

/-- A label that is defined twice, and a jump to another label. -/
def repeatedLines : List Line := numbered 2 [utf8 "top:", utf8 "♿ bottom", utf8 "top:"]

/-- One case for each part: all is well, an operand too many, no label, and a label twice. -/
theorem passes_agree_on_targets_each :
    buildSymbols loopingLines = .ok ⟨[(utf8 "top", 1)]⟩ ∧
    (∃ l e, (instructionLines crowdedLines)[0]? = some l ∧
      l.encode ⟨[(utf8 "top", 1)]⟩ 1 = .error e ∧ e.kind ≠ .unknownLabel) ∧
    (∃ s i l e, survey strandedLines = .ok s ∧
      FirstUnresolved s.symbols strandedLines i l (utf8 "nowhere") ∧
      encodeAll s.symbols strandedLines = .error e) ∧
    buildSymbols repeatedLines = .error ⟨4, .duplicateLabel (utf8 "top")⟩ := by
  refine ⟨?_, ?_, ?_, ?_⟩
  · have hlines : instructionLines loopingLines = [⟨3, utf8 "♿", [utf8 "top"]⟩] := by
      decide +kernel
    have hsurvey : (survey loopingLines).map Survey.symbols = .ok ⟨[(utf8 "top", 1)]⟩ := by
      decide +kernel
    obtain ⟨s, hs, hsymbols⟩ := map_eq_ok_iff.mp hsurvey
    rw [← hsymbols]
    refine (passes_agree_on_targets loopingLines).1 s hs ?_
    intro i l hl
    rw [hlines] at hl
    obtain ⟨hi, rfl⟩ := List.getElem?_eq_some_iff.mp hl
    obtain rfl : i = 0 := Nat.lt_one_iff.mp hi
    rw [hsymbols]
    show ∃ w, InstructionLine.encode ⟨[(utf8 "top", 1)]⟩ 1 ⟨3, utf8 "♿", [utf8 "top"]⟩ = .ok w
    exact ⟨0xC0, by decide +kernel⟩
  · have hlines : instructionLines crowdedLines = [⟨3, utf8 "♿", [utf8 "top", utf8 "1"]⟩] := by
      decide +kernel
    have htable : buildSymbols crowdedLines = .ok ⟨[(utf8 "top", 1)]⟩ := by decide +kernel
    have hl : (instructionLines crowdedLines)[0]? =
        some ⟨3, utf8 "♿", [utf8 "top", utf8 "1"]⟩ := by rw [hlines]; rfl
    have he : InstructionLine.encode ⟨[(utf8 "top", 1)]⟩ 1 ⟨3, utf8 "♿", [utf8 "top", utf8 "1"]⟩ =
        .error ⟨3, .operandCount .jump 2⟩ := by decide +kernel
    exact ⟨_, _, hl, he, (passes_agree_on_targets crowdedLines).2.1 _ htable 0 _ _ hl he⟩
  · have htable : buildSymbols strandedLines = .error ⟨2, .undefinedLabel (utf8 "nowhere")⟩ := by
      decide +kernel
    obtain ⟨s, i, l, target, hs, hfirst, hd, _, _, _, e, _, _, hall⟩ :=
      (passes_agree_on_targets strandedLines).2.2.1 _ htable rfl
    obtain rfl : utf8 "nowhere" = target := Fault.undefinedLabel.inj (Diagnostic.mk.inj hd).2
    exact ⟨s, i, l, e, hs, hfirst, hall⟩
  · have hsurvey : survey repeatedLines = .error ⟨4, .duplicateLabel (utf8 "top")⟩ := by
      decide +kernel
    exact (((passes_agree_on_targets repeatedLines).2.2.2 _).mp hsurvey).1

end Glyph8
