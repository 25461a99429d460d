import Glyph8.Proofs.Assembly.Encoding
import Glyph8.Proofs.Assembly.Expanding
import Glyph8.Proofs.Assembly.Labels

/-!
# Lines of words

Every word of a program keeps the number of the source line that it comes from. Between the source
and the word lie the split into sections and the expansion of macros, and both have to carry the
number along.

Which line a word comes from is said here a second time, line by line: `sourceInstructions` expands
each line of code on its own and puts the line's number to the instruction lines it gives. This
definition has no second pass and no carried numbers, so it is clear which line is meant. The step
is `Line.instructions_eq`, that the lines in a macro's place have the number of the use already;
from it `sourceInstructions_eq` follows for all of the code.

The main result, `words_attributed`, is that the words of a program and their lines are these
instruction lines, in order, each encoded at its own position. Three facts about the numbers follow.
They go up, because the lines of code are numbered upwards and each line's instructions stay
together. They lie below the code marker and within the text. And they are repeated only where a
macro is used, since any other line gives one instruction at most (`exists_invocation_of_count`).
-/

namespace Glyph8

/-- The instruction lines that come in the place of one line of code, with the line's number. -/
def Line.instructions (macros : List Macro) (line : Line) :
    Except Diagnostic (List InstructionLine) := do
  let block ← Glyph8.expand macros [line]
  return (instructionLines block).map fun l => { l with num := line.num }

/-- The instruction lines of code, line by line. -/
def sourceInstructions (macros : List Macro) (code : List Line) :
    Except Diagnostic (List InstructionLine) := do
  let blocks ← code.mapM (Line.instructions macros)
  return blocks.flatten

/-! ## Instruction lines of expanded code -/

section

variable {macros : List Macro} {code out : List Line}

/-- Expanding one line on its own is what expansion does with the line. -/
theorem expand_singleton {line : Line} {block : List Line}
    (h : line.expand (Macro.longestFirst macros) = .ok block) :
    expand macros [line] = .ok block :=
  expand_eq_ok_iff.mpr ⟨[block], by rw [List.flatten_singleton], .cons h .nil⟩

/-- The lines of a block have the line's number already. -/
theorem Line.instructions_eq {line : Line} {block : List Line}
    (h : line.expand (Macro.longestFirst macros) = .ok block) :
    line.instructions macros = .ok (instructionLines block) := by
  have hself : ∀ l ∈ instructionLines block, { l with num := line.num } = l := by
    intro l hl
    obtain ⟨line', hline', hnum⟩ := exists_line_of_mem_instructionLines hl
    rw [← Line.num_of_mem_expand h hline', ← hnum]
  unfold Line.instructions
  rw [expand_singleton h, ok_bind, List.map_congr_left hself, List.map_id']
  rfl

/-- Expanding line by line gives the instruction lines of the expanded code. -/
theorem sourceInstructions_eq (h : expand macros code = .ok out) :
    sourceInstructions macros code = .ok (instructionLines out) := by
  obtain ⟨blocks, rfl, hblocks⟩ := expand_eq_ok_iff.mp h
  have hlines : code.mapM (Line.instructions macros) = .ok (blocks.map instructionLines) := by
    rw [mapM_eq_ok_iff, List.forall₂_map_right_iff]
    exact hblocks.imp fun _ _ hline => Line.instructions_eq hline
  unfold sourceInstructions
  rw [hlines, ok_bind, instructionLines, List.filterMap_flatten]
  rfl

/-! ## Repeated numbers -/

/-- A line is one instruction at most. -/
theorem length_instructionLines_le (code : List Line) :
    (instructionLines code).length ≤ code.length :=
  List.length_filterMap_le _ _

theorem count_eq_zero_of_ne {n : Int} (h : ∀ l ∈ out, l.num ≠ n) :
    ((instructionLines out).map InstructionLine.num).count n = 0 := by
  rw [List.count_eq_zero]
  intro hmem
  obtain ⟨l, hl, hnum⟩ := List.mem_map.mp hmem
  obtain ⟨line, hline, hline'⟩ := exists_line_of_mem_instructionLines hl
  exact h line hline (hline'.symm.trans hnum)

/-- In code whose lines have different numbers, only a line that uses a macro gives more than one
instruction line. -/
theorem exists_invocation_of_count {n : Int} (hcode : code.Pairwise (·.num < ·.num))
    (h : expand macros code = .ok out)
    (hcount : 1 < ((instructionLines out).map InstructionLine.num).count n) :
    ∃ line ∈ code, line.num = n ∧
      ∃ i, line.invocation? (Macro.longestFirst macros) = .ok (some i) := by
  obtain ⟨blocks, rfl, hblocks⟩ := expand_eq_ok_iff.mp h
  clear h
  induction hblocks with
  | nil => cases hcount
  | @cons line block code blocks hline hblocks ih =>
    obtain ⟨hfirst, hcode⟩ := List.pairwise_cons.mp hcode
    rw [List.flatten_cons, instructionLines_append, List.map_append, List.count_append] at hcount
    by_cases hn : line.num = n
    · refine ⟨line, List.mem_cons_self, hn, ?_⟩
      -- later lines have greater numbers, so only this line gives the number
      have hrest : ((instructionLines blocks.flatten).map InstructionLine.num).count n = 0 := by
        refine count_eq_zero_of_ne ?_
        intro l hl hnum
        obtain ⟨next, hnext, hnum'⟩ :=
          exists_num_of_mem_expand (expand_eq_ok_iff.mpr ⟨blocks, rfl, hblocks⟩) hl
        have := hfirst next hnext
        omega
      have hblock : 1 < block.length := by
        have hle := List.count_le_length (a := n)
          (l := (instructionLines block).map InstructionLine.num)
        rw [List.length_map] at hle
        have := length_instructionLines_le block
        omega
      rcases Line.expand_cases hline with ⟨_, rfl⟩ | ⟨i, hi, _⟩
      · exact absurd hblock (Nat.lt_irrefl 1)
      · exact ⟨i, hi⟩
    · -- this line does not give the number at all
      have hzero : ((instructionLines block).map InstructionLine.num).count n = 0 := by
        refine count_eq_zero_of_ne ?_
        intro l hl hnum
        exact hn ((Line.num_of_mem_expand hline hl).symm.trans hnum)
      obtain ⟨later, hlater, hrest⟩ := ih hcode (by omega)
      exact ⟨later, List.mem_cons_of_mem line hlater, hrest⟩

end

/-! ## Words and their lines -/

section

variable {symbols : SymbolTable} {code : List Line} {p : Program}

/-- Each word with its line is an instruction line's number and what the line is encoded to. -/
theorem zip_lines_words (h : encodeAll symbols code = .ok p.placed) :
    (((instructionLines code).zipIdx 1).mapM fun (l, pc) =>
      (l.encode symbols pc).map fun w => (l.num, w)) = .ok (p.lines.zip p.words) := by
  have hzip : p.lines.zip p.words = p.placed.map fun w => (w.line, w.word) := List.zip_map'
  rw [hzip, mapM_eq_ok_iff, List.forall₂_map_right_iff]
  refine (mapM_eq_ok_iff.mp h).imp ?_
  rintro ⟨l, pc⟩ w hw
  obtain ⟨word, hword, rfl⟩ := map_eq_ok_iff.mp hw
  exact map_eq_ok_iff.mpr ⟨word, hword, rfl⟩

/-- The lines of the words are the numbers of the instruction lines. -/
theorem lines_eq (h : encodeAll symbols code = .ok p.placed) :
    p.lines = (instructionLines code).map InstructionLine.num := by
  rw [← List.zipIdx_map_fst 1 (instructionLines code), List.map_map, ← List.forall₂_eq_eq_eq,
    Program.lines, List.forall₂_map_left_iff, List.forall₂_map_right_iff]
  refine (mapM_eq_ok_iff.mp h).flip.imp ?_
  rintro w ⟨l, pc⟩ hw
  obtain ⟨word, _, rfl⟩ := map_eq_ok_iff.mp hw
  rfl

end

/-- The words of an assembled program with their lines are the instruction lines of the source text,
each line of code expanded on its own, encoded at positions 1, 2, … Lines of words never go down,
lie after the code marker and within the text, and only a line that uses a macro has more than one
word. -/
theorem words_attributed {src : Text} {p : Program} (h : assemble src = .ok p) :
    p.words.length = p.lines.length ∧
    ∃ parts ls before marker after, sections src = .ok parts ∧
      src.lines = before ++ marker :: after ∧ Sections.Begins before marker parts.macros ∧
      sourceInstructions parts.macros parts.code = .ok ls ∧
      ((ls.zipIdx 1).mapM fun (l, pc) => (l.encode p.symbols pc).map fun w => (l.num, w)) =
        .ok (p.lines.zip p.words) ∧
      p.lines.Pairwise (· ≤ ·) ∧
      (∀ n ∈ p.lines, (before.length : Int) + 1 < n ∧ n ≤ src.lines.length) ∧
      ∀ n, 1 < p.lines.count n → ∃ line ∈ parts.code, line.num = n ∧
        ∃ i, line.invocation? (Macro.longestFirst parts.macros) = .ok (some i) := by
  obtain ⟨code, s, hcode, _, hplaced, hsymbols⟩ := assemble_eq_ok_iff.mp h
  obtain ⟨parts, hparts, hexpand⟩ := expandedCode_eq_ok_iff.mp hcode
  obtain ⟨before, marker, after, hlines, hbegins, hnumbered⟩ := sections_eq_ok_iff.mp hparts
  have hnums := lines_eq hplaced
  refine ⟨(List.length_map _).trans (List.length_map _).symm, parts, instructionLines code, before,
    marker, after, hparts, hlines, hbegins, sourceInstructions_eq hexpand, ?_, ?_, ?_, ?_⟩
  · rw [hsymbols]
    exact zip_lines_words hplaced
  · rw [hnums, List.pairwise_map]
    exact pairwise_num_instructionLines (pairwise_num_expandedCode hcode)
  · intro n hn
    rw [hnums] at hn
    obtain ⟨l, hl, rfl⟩ := List.mem_map.mp hn
    -- an instruction has the number of a line of code, and that of the line it was expanded from
    obtain ⟨line, hline, hnum⟩ := exists_line_of_mem_instructionLines hl
    obtain ⟨origin, horigin, hnum'⟩ := exists_num_of_mem_expand hexpand hline
    rw [hnum, hnum']
    exact num_of_mem_code hlines (hnumbered ▸ horigin)
  · intro n hn
    rw [hnums] at hn
    -- lines of code have different numbers, so two words on one line come from a macro
    refine exists_invocation_of_count ?_ hexpand hn
    rw [hnumbered]
    exact pairwise_num_numbered _ after

/-- A macro of two instructions with a label before them, used below a comment. -/
def spinningSource : Text :=
  utf8 "🔓 spin\n_:\n🤖 📢\n♿ _\n🔒\n💬\n# nothing\nspin a\n\n🤖 🔪"

/-- Both words of the macro belong to the line that uses it. -/
theorem words_attributed_spinning :
    ∃ p parts ls, assemble spinningSource = .ok p ∧ sections spinningSource = .ok parts ∧
      sourceInstructions parts.macros parts.code = .ok ls ∧
      p.lines.zip p.words = [(8, 0xE0), (8, 0xD1), (10, 0xE2)] ∧
      ((ls.zipIdx 1).mapM fun (l, pc) => (l.encode p.symbols pc).map fun w => (l.num, w)) =
        .ok [(8, 0xE0), (8, 0xD1), (10, 0xE2)] ∧
      ∃ line ∈ parts.code, line.num = 8 ∧
        ∃ i, line.invocation? (Macro.longestFirst parts.macros) = .ok (some i) := by
  have hrun : (assemble spinningSource).map (fun p => (p.lines, p.words)) =
      .ok ([8, 8, 10], [0xE0, 0xD1, 0xE2]) := by decide +kernel
  obtain ⟨p, hp, hrun⟩ := map_eq_ok_iff.mp hrun
  obtain ⟨hlines, hwords⟩ := Prod.mk.inj hrun
  obtain ⟨_, parts, ls, _, _, _, hparts, _, _, hls, hpairs, _, _, hrepeated⟩ := words_attributed hp
  rw [hlines, hwords] at hpairs
  refine ⟨p, parts, ls, hp, hparts, hls, by rw [hlines, hwords]; rfl, hpairs, hrepeated 8 ?_⟩
  rw [hlines]
  decide

end Glyph8
