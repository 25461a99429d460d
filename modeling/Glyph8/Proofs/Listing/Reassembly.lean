import Glyph8.Listing
import Glyph8.Proofs.Assembly.Labels
import Glyph8.Proofs.Assembly.MacroUse
import Glyph8.Proofs.Instruction.Spelling

/-!
# Reassembling a listing

An executable can be written as a source file, one instruction on each line after the code marker.
Assembling that file gives the words back in their canonical spelling. It cannot be assembled if the
executable has an unassigned system call; then the error names the line of the first one.

The source file is known in full, so assembling it is a computation, done here stage by stage. Its
lines are the marker, one line for each word, and an empty line at the end (`lines_source`). There
are no macros, so expanding changes nothing (`expand_nil`), and no line is a label, so the first
pass finds nothing (`foldlM_visit_of_no_label`). Each line is read as the instruction that was
printed on it (`ofLine?_source`), whose word is canonical or which cannot be encoded
(`place_instructionLine`).

A source text is UTF-8 and a source line is its bytes, while instructions are printed as characters.
That the characters come back as tokens is the content of the module on spelling.

The main result for the whole file is `assemble_source`, an equation. `reassemble_listing` says the
same in three parts: when assembling fails, what it gives otherwise, and which words are reproduced
exactly.
-/

namespace Glyph8

/-- The canonical words are those up to the last assigned system call, but for the jump by negative
zero. -/
theorem canonical_eq_self :
    ∀ w : Word, w ≤ 0xE2 ∧ w ≠ 0xD0 → w.isUnassigned = false ∧ w.canonical = w := by
  refine forall_byte ?_
  decide +kernel

/-! ## Code without macros and labels -/

/-- Without macros there is nothing to expand. -/
theorem expand_nil (code : List Line) : expand [] code = .ok code :=
  expand_of_not_invokes fun _ _ _ => nofun

/-- Without labels the first pass leaves the symbol table as it is. -/
theorem foldlM_visit_of_no_label :
    ∀ (code : List Line) (s : Survey), (∀ l ∈ code, ∀ name, l.statement ≠ .label name) →
      ∃ s', code.foldlM Survey.visit s = .ok s' ∧ s'.symbols = s.symbols := by
  intro code
  induction code with
  | nil => intro s _; exact ⟨s, rfl, rfl⟩
  | cons l code ih =>
    intro s h
    obtain ⟨t, ht, hsymbols⟩ : ∃ t, s.visit l = .ok t ∧ t.symbols = s.symbols := by
      unfold Survey.visit
      split
      · exact ⟨s, rfl, rfl⟩
      · next name hname => exact absurd hname (h l List.mem_cons_self name)
      · exact ⟨_, rfl, rfl⟩
    obtain ⟨s', hs', hsymbols'⟩ := ih t fun k hk => h k (List.mem_cons_of_mem l hk)
    refine ⟨s', ?_, hsymbols'.trans hsymbols⟩
    rw [List.foldlM_cons, ht, ok_bind, hs']

/-! ## Lines of the source file -/

namespace Listing

/-- The lines of the source file of an executable after the code marker. -/
def codeLines (code : List Word) : List Text := code.map (fun w => (Word.decode w).source) ++ [[]]

/-- Lines that end in newlines are lines between newlines, with an empty one at the end. -/
theorem joinWith_append_nil (l : Text) (ls : List Text) :
    Text.joinWith Text.newline (l :: (ls ++ [[]])) =
      l ++ [Text.newline] ++ ls.flatMap (· ++ [Text.newline]) := by
  unfold Text.joinWith
  induction ls generalizing l with
  | nil =>
    rw [List.nil_append, List.intercalate_cons_cons, List.intercalate_singleton, List.flatMap_nil]
  | cons u ls ih =>
    rw [List.cons_append, List.intercalate_cons_cons, ih, List.flatMap_cons]

theorem source_eq_joinWith (code : List Word) :
    source code = Text.joinWith Text.newline (Text.ofChars [Marker.code] :: codeLines code) := by
  unfold codeLines
  rw [joinWith_append_nil, List.flatMap_map]
  rfl

/-- Each line of the source file is made of tokens with single spaces. -/
theorem exists_tokens_of_mem {code : List Word} {l : Text}
    (h : l ∈ Text.ofChars [Marker.code] :: codeLines code) :
    ∃ ts : List (List Char), (∀ t ∈ ts, IsToken t) ∧ l = spaced (ts.map Text.ofChars) := by
  rcases List.mem_cons.mp h with rfl | h
  · have hmarker : IsToken [Marker.code] := isToken_singleton (by decide) (by decide)
    exact ⟨[[Marker.code]], List.forall_mem_singleton.mpr hmarker, rfl⟩
  · rcases List.mem_append.mp h with h | h
    · obtain ⟨w, _, rfl⟩ := List.mem_map.mp h
      exact ⟨_, (Word.decode w).isToken_of_mem_spelling, (Word.decode w).source_eq⟩
    · rw [List.mem_singleton.mp h]
      exact ⟨[], nofun, rfl⟩

theorem lines_source (code : List Word) :
    (source code).lines = Text.ofChars [Marker.code] :: codeLines code := by
  rw [source_eq_joinWith]
  -- a line is tokens and spaces, so what ends a line is not in it
  refine Text.lines_joinWith (List.cons_ne_nil _ _) ?_ ?_
  · intro l hl
    obtain ⟨ts, hts, rfl⟩ := exists_tokens_of_mem hl
    exact blank_not_mem_spaced hts '\n' (by decide) (by decide) (by decide) (by decide)
  · intro l hl hlast
    obtain ⟨ts, hts, rfl⟩ := exists_tokens_of_mem hl
    exact blank_not_mem_spaced hts '\r' (by decide) (by decide) (by decide) (by decide)
      (List.mem_of_getLast? hlast)

/-- All lines after the marker are code, and none is changed. -/
theorem expandedCode_source (code : List Word) :
    expandedCode (source code) = .ok (numbered 2 (codeLines code)) := by
  have hsections : sections (source code) = .ok ⟨[], numbered 2 (codeLines code)⟩ := by
    unfold sections
    rw [lines_source, Sections.scan, if_neg (by decide), if_pos (by decide)]
  unfold expandedCode
  rw [hsections, ok_bind, expand_nil]

/-! ## Words of the source file -/

/-- The instruction line that a word is printed on. -/
def instructionLine (w : Word) (num : Nat) : InstructionLine :=
  { num
    head := Text.ofChars [(Word.decode w).opcode.symbol]
    operands := (Word.decode w).operandSpelling.map Text.ofChars }

theorem ofLine?_source (w : Word) (num : Nat) :
    InstructionLine.ofLine? ⟨num, (Word.decode w).source⟩ = some (instructionLine w num) := by
  unfold InstructionLine.ofLine?
  rw [Instruction.statement_source]
  rfl

/-- Each word has an instruction line; the empty line has none. -/
theorem instructionLines_numbered (code : List Word) (first : Nat) :
    instructionLines (numbered first (codeLines code)) =
      (code.zipIdx first).map fun (w, num) => instructionLine w num := by
  induction code generalizing first with
  | nil => rfl
  | cons w code ih =>
    show instructionLines (⟨first, (Word.decode w).source⟩ ::
      numbered (first + 1) (codeLines code)) = _
    unfold instructionLines at ih ⊢
    rw [List.filterMap_cons_some (ofLine?_source w first), ih]
    rfl

theorem statement_ne_label (code : List Word) (first : Nat) :
    ∀ l ∈ numbered first (codeLines code), ∀ name, l.statement ≠ .label name := by
  intro l hl name
  obtain ⟨⟨text, num⟩, hmem, rfl⟩ := List.mem_map.mp hl
  rcases List.mem_append.mp (List.fst_mem_of_mem_zipIdx hmem) with htext | htext
  · obtain ⟨w, _, hw⟩ := List.mem_map.mp htext
    simp only at hw
    rw [← hw, Instruction.statement_source]
    exact nofun
  · rw [show text = [] from List.mem_singleton.mp htext]
    exact nofun

/-- An instruction line is encoded to its word in canonical spelling, wherever it stands. -/
theorem place_instructionLine (symbols : SymbolTable) (w : Word) (num pc : Nat) :
    (instructionLine w num).place symbols pc =
      if w.isUnassigned then .error ⟨num, .unknownSyscall unassigned⟩
      else .ok ⟨num, w.canonical⟩ := by
  have hassigned := isAssigned_decode w
  by_cases hw : w.isUnassigned = true
  · rw [hw] at hassigned
    rw [if_pos hw]
    unfold InstructionLine.place instructionLine
    rw [InstructionLine.encode_eq]
    dsimp only
    rw [Instruction.ofTokens_unassigned symbols pc hassigned]
    rfl
  · rw [Bool.eq_false_iff.mpr hw] at hassigned
    rw [if_neg hw, place_eq_ok_iff]
    exact ⟨_, Instruction.ofTokens_spelling symbols pc hassigned, by rw [word_decode]; rfl⟩

/-- The words of the source file of an executable, or the error at its first unassigned system
call. -/
theorem encodeAll_source (symbols : SymbolTable) (code : List Word) (first : Nat) :
    encodeAll symbols (numbered first (codeLines code)) =
      match code.findIdx? Word.isUnassigned with
      | some i => .error ⟨(first + i : Nat), .unknownSyscall unassigned⟩
      | none => .ok ((code.zipIdx first).map fun (w, num) => ⟨num, w.canonical⟩) := by
  unfold encodeAll
  rw [instructionLines_numbered]
  -- no operand is a label, so it does not matter which position the first line has
  generalize 1 = pc
  induction code generalizing first pc with
  | nil => rfl
  | cons w code ih =>
    rw [List.zipIdx_cons, List.map_cons, List.zipIdx_cons, List.mapM_cons, List.findIdx?_cons]
    simp only [place_instructionLine, ih]
    by_cases hw : w.isUnassigned = true
    · simp only [hw, if_true, error_bind]
      rfl
    · rw [if_neg hw, if_neg hw, ok_bind]
      cases code.findIdx? Word.isUnassigned with
      | none => rfl
      | some i =>
        show Except.error _ = Except.error _
        rw [Nat.add_right_comm first 1 i]
        rfl

/-- What the source file of an executable is assembled to. -/
theorem assemble_source (code : List Word) :
    assemble (source code) =
      match code.findIdx? Word.isUnassigned with
      | some i => .error ⟨(2 + i : Nat), .unknownSyscall unassigned⟩
      | none => .ok
        { placed := (code.zipIdx 2).map fun (w, num) => ⟨num, w.canonical⟩, symbols := {} } := by
  obtain ⟨s, hs, hsymbols⟩ := foldlM_visit_of_no_label _ {} (statement_ne_label code 2)
  unfold assemble
  rw [expandedCode_source, ok_bind, assembleCode, survey, hs, ok_bind, encodeAll_source, hsymbols]
  cases code.findIdx? Word.isUnassigned with
  | none => rfl
  | some i => rfl

end Listing

/-- Without unassigned system calls, the source file can be assembled. -/
theorem words_assemble_source {code : List Word} (h : ∀ w ∈ code, w.isUnassigned = false) :
    ∃ p, assemble (Listing.source code) = .ok p ∧ p.words = code.map Word.canonical ∧
      p.lines = (List.range' 2 code.length).map Int.ofNat ∧ p.symbols = {} := by
  have hsource := Listing.assemble_source code
  rw [List.findIdx?_eq_none_iff.mpr h] at hsource
  refine ⟨_, hsource, ?_, ?_, rfl⟩
  · rw [← List.zipIdx_map_fst 2 code, Program.words, List.map_map, List.map_map,
      List.zipIdx_map_fst]
    rfl
  · rw [← List.zipIdx_map_snd 2 code, Program.lines, List.map_map, List.map_map]
    rfl

/-- Assembling the source file of an executable: an unassigned system call is an error, at the line
of the first one; otherwise the words are those of the executable in canonical spelling, one on each
line from the second on, and there are no labels. Canonical words are reproduced exactly. -/
theorem reassemble_listing (code : List Word) :
    (∀ i, code.findIdx? Word.isUnassigned = some i →
      assemble (Listing.source code) = .error ⟨(i + 2 : Nat), .unknownSyscall unassigned⟩) ∧
    ((∀ w ∈ code, w.isUnassigned = false) →
      ∃ p, assemble (Listing.source code) = .ok p ∧ p.words = code.map Word.canonical ∧
        p.lines = (List.range' 2 code.length).map Int.ofNat ∧ p.symbols = {}) ∧
    ((∀ w ∈ code, w ≤ 0xE2 ∧ w ≠ 0xD0) →
      ∃ p, assemble (Listing.source code) = .ok p ∧ p.words = code) := by
  refine ⟨?_, words_assemble_source, ?_⟩
  · intro i hi
    have hsource := Listing.assemble_source code
    rw [hi] at hsource
    rw [hsource, Nat.add_comm]
  · intro h
    have hself := fun w hw => canonical_eq_self w (h w hw)
    obtain ⟨p, hp, hwords, _, _⟩ := words_assemble_source fun w hw => (hself w hw).1
    refine ⟨p, hp, ?_⟩
    rw [hwords]
    exact (List.map_congr_left fun w hw => (hself w hw).2).trans (List.map_id code)

/-- An unassigned system call on line four; words that change; words that do not. -/
theorem reassemble_listing_three :
    assemble (Listing.source [0x00, 0xD0, 0xE3]) =
        .error ⟨(4 : Nat), .unknownSyscall unassigned⟩ ∧
      (∃ p, assemble (Listing.source [0x00, 0xD0, 0xFE]) = .ok p ∧ p.words = [0x00, 0xC0, 0xE2] ∧
        p.lines = [2, 3, 4] ∧ p.symbols = {}) ∧
      ∃ p, assemble (Listing.source [0x00, 0xD1, 0xE2]) = .ok p ∧ p.words = [0x00, 0xD1, 0xE2] := by
  refine ⟨(reassemble_listing [0x00, 0xD0, 0xE3]).1 2 (by decide),
    (reassemble_listing [0x00, 0xD0, 0xFE]).2.1 ?_, (reassemble_listing [0x00, 0xD1, 0xE2]).2.2 ?_⟩
  · simp only [List.forall_mem_cons]
    exact ⟨by decide, by decide, by decide, nofun⟩
  · simp only [List.forall_mem_cons]
    exact ⟨by decide, by decide, by decide, nofun⟩

end Glyph8
