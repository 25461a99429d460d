import Glyph8.Assembly.Program
import Glyph8.Proofs.Assembly.Sectioning
import Glyph8.Proofs.Text.Tokens

/-!
# Expanded code

Expansion replaces each line of code that uses a macro by the macro's body, with the argument put
in. A line stays as it is, or a body comes in its place (`Line.expand_cases`); nothing else happens.
This module collects what later stages may rely on.

Numbers. The lines that replace a line have its number (`Line.num_of_mem_expand`). So the numbers of
expanded code are numbers of the code, in the same order (`pairwise_num_expandedCode`), though some
may be missing and some repeated. They lie between the line after the code marker and the end of the
text (`num_of_mem_expandedCode`).

Failure. Expanding fails only where a macro is used without an argument, at the line of the use
(`expand_error`).

Order. Code can be expanded in parts, from the top (`expand_code_append`), which is how a line that
is put in, or a block that is appended, is dealt with.

Newlines. A body line with a token put into it is still one line, since no token holds a newline
(`newline_not_mem_expandedCode`). Reading the expanded code line by line again gives the same lines.
-/

namespace Glyph8

/-! ## One line -/

section

variable {ranked : List Macro} {line l : Line} {block : List Line}

/-- A line stays, or the body of the macro that it uses comes in its place. -/
theorem Line.expand_cases (h : line.expand ranked = .ok block) :
    (line.invocation? ranked = .ok none ∧ block = [line]) ∨
      ∃ i, line.invocation? ranked = .ok (some i) ∧
        block = i.used.instantiate i.argument i.num := by
  unfold Line.expand at h
  obtain ⟨use, huse, h⟩ := bind_eq_ok_iff.mp h
  cases use with
  | none => exact Or.inl ⟨huse, (Except.ok.inj h).symm⟩
  | some i => exact Or.inr ⟨i, huse, (Except.ok.inj h).symm⟩

/-- What a line that uses a macro says: the macro is one of those given, the argument is a token of
the line, and the number is the line's. -/
theorem Line.invocation?_eq_some {i : Invocation} (h : line.invocation? ranked = .ok (some i)) :
    i.used ∈ ranked ∧ i.argument ∈ Line.tokens line.text ∧ i.num = line.num := by
  unfold Line.invocation? at h
  cases hused : Macro.used? ranked (Text.joinWith Text.space (Line.tokens line.text)) with
  | none =>
    simp only [hused] at h
    cases h
  | some m =>
    simp only [hused] at h
    cases hargument : (Line.tokens line.text)[1]? with
    | none =>
      simp only [hargument] at h
      cases h
    | some argument =>
      simp only [hargument] at h
      have hi : i = ⟨m, argument, line.num⟩ := (Option.some.inj (Except.ok.inj h)).symm
      subst hi
      refine ⟨?_, List.mem_of_getElem? hargument, rfl⟩
      unfold Macro.used? at hused
      split at hused
      · cases hused
      · exact List.mem_of_find?_eq_some hused

theorem Line.num_of_mem_expand (h : line.expand ranked = .ok block) (hl : l ∈ block) :
    l.num = line.num := by
  rcases Line.expand_cases h with ⟨_, rfl⟩ | ⟨i, hi, rfl⟩
  · rw [List.mem_singleton.mp hl]
  · obtain ⟨text, _, rfl⟩ := List.mem_map.mp hl
    exact (Line.invocation?_eq_some hi).2.2

/-- Expanding fails only where a macro has no argument. -/
theorem Line.expand_error {d : Diagnostic} (h : line.expand ranked = .error d) :
    ∃ name, d = ⟨line.num, .macroArgumentMissing name⟩ := by
  unfold Line.expand at h
  rcases bind_eq_error_iff.mp h with h | ⟨use, _, h⟩
  · unfold Line.invocation? at h
    dsimp only at h
    split at h
    · cases h
    · split at h
      · exact ⟨_, (Except.error.inj h).symm⟩
      · cases h
  · cases use <;> cases h

end

/-! ## Code -/

section

variable {macros : List Macro} {a b x y code out : List Line}

/-- Expanded code is the lines that replace each line, one after the other. -/
theorem expand_eq_ok_iff :
    expand macros code = .ok out ↔ ∃ blocks, out = blocks.flatten ∧
      List.Forall₂ (fun l block => l.expand (Macro.longestFirst macros) = .ok block)
        code blocks := by
  unfold expand
  rw [bind_eq_ok_iff]
  constructor
  · rintro ⟨blocks, hblocks, h⟩
    exact ⟨blocks, (Except.ok.inj h).symm, mapM_eq_ok_iff.mp hblocks⟩
  · rintro ⟨blocks, rfl, hblocks⟩
    exact ⟨blocks, mapM_eq_ok_iff.mpr hblocks, rfl⟩

/-- Code can be expanded in parts, from the top. -/
theorem expand_code_append (macros : List Macro) (a b : List Line) :
    expand macros (a ++ b) = do
      let x ← expand macros a
      let y ← expand macros b
      return x ++ y := by
  unfold expand
  rw [List.mapM_append]
  cases a.mapM (Line.expand (Macro.longestFirst macros)) with
  | error d => rfl
  | ok upper =>
    cases b.mapM (Line.expand (Macro.longestFirst macros)) with
    | error d => rfl
    | ok lower => exact congrArg Except.ok List.flatten_append

theorem expand_append (ha : expand macros a = .ok x) (hb : expand macros b = .ok y) :
    expand macros (a ++ b) = .ok (x ++ y) := by
  rw [expand_code_append, ha, hb]
  rfl

/-- Expanding code fails at a line that uses a macro without an argument. -/
theorem expand_error {d : Diagnostic} (h : expand macros code = .error d) :
    ∃ l ∈ code, ∃ name, d = ⟨l.num, .macroArgumentMissing name⟩ := by
  unfold expand at h
  rcases bind_eq_error_iff.mp h with h | ⟨_, _, h⟩
  · obtain ⟨before, l, after, rfl, _, hl⟩ := mapM_eq_error_iff.mp h
    exact ⟨l, List.mem_append_right _ List.mem_cons_self, Line.expand_error hl⟩
  · cases h

/-- Every line of expanded code comes in the place of a line of the code. -/
theorem exists_line_of_mem_expand (h : expand macros code = .ok out) {l : Line} (hl : l ∈ out) :
    ∃ line ∈ code, ∃ block, line.expand (Macro.longestFirst macros) = .ok block ∧ l ∈ block := by
  obtain ⟨blocks, rfl, hblocks⟩ := expand_eq_ok_iff.mp h
  obtain ⟨block, hblock, hmem⟩ := List.mem_flatten.mp hl
  obtain ⟨line, hline, hexpand⟩ := exists_of_mem_right hblocks hblock
  exact ⟨line, hline, block, hexpand, hmem⟩

theorem exists_num_of_mem_expand (h : expand macros code = .ok out) {l : Line} (hl : l ∈ out) :
    ∃ line ∈ code, l.num = line.num := by
  obtain ⟨line, hline, block, hblock, hmem⟩ := exists_line_of_mem_expand h hl
  exact ⟨line, hline, Line.num_of_mem_expand hblock hmem⟩

/-- Blocks whose lines have the numbers of lines in order have their lines in order. -/
theorem pairwise_num_expand (hcode : code.Pairwise (·.num ≤ ·.num))
    (h : expand macros code = .ok out) : out.Pairwise (·.num ≤ ·.num) := by
  obtain ⟨blocks, rfl, hblocks⟩ := expand_eq_ok_iff.mp h
  clear h
  induction hblocks with
  | nil => exact List.Pairwise.nil
  | @cons line block code blocks hline hblocks ih =>
    obtain ⟨hfirst, hcode⟩ := List.pairwise_cons.mp hcode
    rw [List.flatten_cons]
    refine List.pairwise_append.mpr ⟨?_, ih hcode, ?_⟩
    · -- one block, one number
      refine List.pairwise_of_forall_mem_list ?_
      intro k hk l hl
      exact Int.le_of_eq ((Line.num_of_mem_expand hline hk).trans
        (Line.num_of_mem_expand hline hl).symm)
    · intro k hk l hl
      obtain ⟨next, hnext, hnum⟩ :=
        exists_num_of_mem_expand (expand_eq_ok_iff.mpr ⟨blocks, rfl, hblocks⟩) hl
      rw [Line.num_of_mem_expand hline hk, hnum]
      exact hfirst next hnext

end

/-! ## Expanded code of a source text -/

section

variable {src : Text} {code : List Line}

/-- Code is expanded with the macros of its own source text. -/
theorem expandedCode_eq_ok_iff :
    expandedCode src = .ok code ↔
      ∃ parts, sections src = .ok parts ∧ expand parts.macros parts.code = .ok code := by
  unfold expandedCode
  exact bind_eq_ok_iff

/-- Once the sections are known, the macros and the code are all that matters. -/
theorem assemble_of_sections {parts : Sections} (h : sections src = .ok parts) :
    assemble src = expand parts.macros parts.code >>= assembleCode := by
  unfold assemble expandedCode
  rw [h, ok_bind]

/-- Lines of code come after the line of the code marker, and are lines of the source text. -/
theorem num_of_mem_code {before : List Text} {marker : Text} {after : List Text} {l : Line}
    (hlines : src.lines = before ++ marker :: after)
    (hl : l ∈ numbered (before.length + 2) after) :
    (before.length : Int) + 1 < l.num ∧ l.num ≤ src.lines.length := by
  have hlen : src.lines.length = before.length + 1 + after.length := by
    rw [hlines, List.length_append, List.length_cons]
    omega
  have := num_of_mem_numbered hl
  omega

/-- The numbers of expanded code are those of lines of the text. -/
theorem num_of_mem_expandedCode (h : expandedCode src = .ok code) {l : Line} (hl : l ∈ code) :
    1 ≤ l.num ∧ l.num ≤ src.lines.length := by
  obtain ⟨parts, hparts, hexpand⟩ := expandedCode_eq_ok_iff.mp h
  obtain ⟨before, marker, after, hlines, _, hcode⟩ := sections_eq_ok_iff.mp hparts
  obtain ⟨line, hline, hnum⟩ := exists_num_of_mem_expand hexpand hl
  rw [hcode] at hline
  have := num_of_mem_code hlines hline
  omega

/-- Numbers do not go down in expanded code. -/
theorem pairwise_num_expandedCode (h : expandedCode src = .ok code) :
    code.Pairwise (·.num ≤ ·.num) := by
  obtain ⟨parts, hparts, hexpand⟩ := expandedCode_eq_ok_iff.mp h
  obtain ⟨before, marker, after, _, _, hcode⟩ := sections_eq_ok_iff.mp hparts
  refine pairwise_num_expand ?_ hexpand
  rw [hcode]
  exact (pairwise_num_numbered _ after).imp Int.le_of_lt

end

/-! ## Instruction lines -/

section

variable {code : List Line} {l : InstructionLine}

theorem num_of_ofLine? {line : Line} (h : InstructionLine.ofLine? line = some l) :
    l.num = line.num := by
  unfold InstructionLine.ofLine? at h
  split at h
  · rw [← Option.some.inj h]
  · cases h

theorem exists_line_of_mem_instructionLines (h : l ∈ instructionLines code) :
    ∃ line ∈ code, l.num = line.num := by
  obtain ⟨line, hline, hl⟩ := List.mem_filterMap.mp h
  exact ⟨line, hline, num_of_ofLine? hl⟩

/-- Leaving out labels and blank lines keeps the order. -/
theorem pairwise_num_instructionLines (h : code.Pairwise (·.num ≤ ·.num)) :
    (instructionLines code).Pairwise (·.num ≤ ·.num) := by
  refine h.filterMap InstructionLine.ofLine? ?_
  intro a b hab k hk l hl
  rw [num_of_ofLine? hk, num_of_ofLine? hl]
  exact hab

end

/-! ## Newlines -/

/-- Putting in a text without a newline makes no new line. -/
theorem newline_not_mem_substitute {t argument : Text} {old : UInt8} (ht : Text.newline ∉ t)
    (hargument : Text.newline ∉ argument) : Text.newline ∉ t.substitute old argument := by
  intro hmem
  obtain ⟨b, hb, hmem⟩ := List.mem_flatMap.mp hmem
  split at hmem
  · exact hargument hmem
  · rw [← List.mem_singleton.mp hmem] at hb
    exact ht hb

/-- Texts of expanded code are lines, or lines with tokens put into them. -/
theorem newline_not_mem_expandedCode {src : Text} {code : List Line}
    (h : expandedCode src = .ok code) {l : Line} (hl : l ∈ code) : Text.newline ∉ l.text := by
  obtain ⟨parts, hparts, hexpand⟩ := expandedCode_eq_ok_iff.mp h
  obtain ⟨before, marker, after, hlines, _, hcode⟩ := sections_eq_ok_iff.mp hparts
  obtain ⟨line, hline, block, hblock, hmem⟩ := exists_line_of_mem_expand hexpand hl
  rcases Line.expand_cases hblock with ⟨_, rfl⟩ | ⟨i, hi, rfl⟩
  · -- a line that stays is a line of the source text
    rw [List.mem_singleton.mp hmem]
    refine Text.newline_not_mem_of_mem_lines (t := src) ?_
    have htext : line.text ∈ (numbered (before.length + 2) after).map Line.text :=
      List.mem_map_of_mem (hcode ▸ hline)
    rw [map_text_numbered] at htext
    rw [hlines]
    exact List.mem_append_right _ (List.mem_cons_of_mem _ htext)
  · -- so is a line of a body, and the argument is a token of one
    obtain ⟨hused, hargument, _⟩ := Line.invocation?_eq_some hi
    obtain ⟨text, htext, rfl⟩ := List.mem_map.mp hmem
    refine newline_not_mem_substitute ?_ ?_
    · have hmacro : i.used ∈ parts.macros := List.mem_mergeSort.mp hused
      exact Text.newline_not_mem_of_mem_lines (mem_lines_of_mem_body hparts hmacro htext)
    · exact Text.newline_not_mem_of_mem_words ((List.takeWhile_sublist _).subset hargument)

end Glyph8
