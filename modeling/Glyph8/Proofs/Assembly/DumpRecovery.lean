import Glyph8.Assembly.Dump
import Glyph8.Proofs.Assembly.Attribution
import Glyph8.Proofs.Assembly.CleanLabels
import Glyph8.Proofs.Text.Columns
import Glyph8.Proofs.Text.Rows
import Glyph8.Proofs.Text.Sinks

/-!
# Dumps lose nothing

A dump shows a program as two tables: the labels with their positions, in byte order, and the words
with their positions, lines and instructions. Nothing in it is quoted, and names may be made of any
bytes. Still the program can be read back from the dump alone.

`Dump.program` does so. It takes the complete lines of the text, splits them at the first blank one,
and reads each row by its words. For this to give the program, three things are needed.

Rows must not fall apart. A name in a symbol table is what stands before the colon of a token, so it
has no blank and no newline (`canBeToken_of_mem_symbols`), and every row is one line
(`isRow_of_mem_dumpLines`).

The words of a row must be its columns. Columns are filled up with spaces, which add no word, and
each entry but the last is a word of its own (`words_labelRow`, `words_wordRow`). The instruction in
the last column may have several.

The tables must be found. No row of the first table is blank, as a name is not empty, so the blank
line between the tables is the first blank one (`rows_of_dumpLines`).

Then `program_dumpLines` says that reading back gives the program, with its labels in byte order.
Since no name is repeated, the order does not matter for look-up (`find?_sorted`). The main result
is `dump_lossless`.
-/

namespace Glyph8

/-! ## The byte order of names -/

/-- The order of names is the order of their bytes. -/
theorem Text.precedes_iff {s t : Text} : s.precedes t = true ↔ s < t := by
  induction s generalizing t with
  | nil =>
    cases t with
    | nil => exact ⟨nofun, fun h => absurd h (List.lt_irrefl _)⟩
    | cons b t => exact ⟨fun _ => List.nil_lt_cons b t, fun _ => rfl⟩
  | cons a s ih =>
    cases t with
    | nil => exact ⟨nofun, fun h => absurd h (List.not_lt_nil _)⟩
    | cons b t =>
      show (decide (a < b) || (a == b && precedes s t)) = true ↔ _
      rw [List.cons_lt_cons_iff, Bool.or_eq_true, Bool.and_eq_true, decide_eq_true_eq, beq_iff_eq,
        ih]

namespace SymbolTable

variable {t : SymbolTable}

theorem not_precedes_iff {a b : Text × Nat} : (!b.1.precedes a.1) = true ↔ a.1 ≤ b.1 := by
  rw [Bool.not_eq_true', ← Bool.not_eq_true, Text.precedes_iff, List.not_lt]

theorem sorted_perm (t : SymbolTable) : t.sorted.Perm t.entries := List.mergeSort_perm _ _

theorem nodup_sorted (h : (t.entries.map Prod.fst).Nodup) : (t.sorted.map Prod.fst).Nodup :=
  (t.sorted_perm.map Prod.fst).nodup_iff.mpr h

/-- Sorting names that are all different leaves none after a greater or equal one. -/
theorem pairwise_sorted (h : (t.entries.map Prod.fst).Nodup) :
    t.sorted.Pairwise fun a b => a.1 < b.1 := by
  have hle : t.sorted.Pairwise fun a b => a.1 ≤ b.1 := by
    refine (List.pairwise_mergeSort ?_ ?_ t.entries).imp not_precedes_iff.mp
    · intro a b c hab hbc
      rw [not_precedes_iff] at hab hbc ⊢
      exact List.le_trans hab hbc
    · intro a b
      rw [Bool.or_eq_true, not_precedes_iff, not_precedes_iff]
      exact List.le_total a.1 b.1
  have hne : t.sorted.Pairwise fun a b => a.1 ≠ b.1 := List.pairwise_map.mp (nodup_sorted h)
  refine (hle.and hne).imp ?_
  intro a b hab
  exact (List.le_iff_lt_or_eq.mp hab.1).resolve_right hab.2

/-- Look-up does not depend on the order of the labels. -/
theorem find?_sorted (h : (t.entries.map Prod.fst).Nodup) (name : Text) :
    find? ⟨t.sorted⟩ name = t.find? name := by
  apply Option.ext
  intro position
  rw [find?_eq_some_iff_mem (t := ⟨t.sorted⟩) (nodup_sorted h), find?_eq_some_iff_mem h]
  exact t.sorted_perm.mem_iff

end SymbolTable

/-! ## Names and lines of an assembled program -/

section

variable {src : Text} {p : Program}

/-- An assembled program has no label twice. -/
theorem nodup_symbols (h : assemble src = .ok p) : (p.symbols.entries.map Prod.fst).Nodup := by
  obtain ⟨code, s, _, hs, _, hsymbols⟩ := assemble_eq_ok_iff.mp h
  rw [hsymbols]
  exact (survey_labels hs).nodup

/-- A label is a token without its colon, so it can be a token itself. -/
theorem canBeToken_of_mem_symbols (h : assemble src = .ok p) {name : Text}
    (hname : name ∈ p.symbols.entries.map Prod.fst) : name.CanBeToken := by
  obtain ⟨code, s, _, hs, _, hsymbols⟩ := assemble_eq_ok_iff.mp h
  rw [hsymbols, symbols_of_survey hs, map_fst_labelTable] at hname
  obtain ⟨line, _, hline⟩ := mem_labelNames_iff.mp hname
  have hne : name ≠ [] := by
    intro hempty
    exact (cleanLabels_of_survey hs).nonempty (hempty ▸ hname)
  apply Text.CanBeToken.of_append_labelMark _ hne
  apply Line.canBeToken_of_mem_tokens
  rw [Statement.tokens_of_label hline]
  exact List.mem_singleton_self _

/-- The lines of words are line numbers, so they are not negative. -/
theorem line_nonneg (h : assemble src = .ok p) {w : PlacedWord} (hw : w ∈ p.placed) :
    0 ≤ w.line := by
  obtain ⟨code, s, hcode, _, hplaced, _⟩ := assemble_eq_ok_iff.mp h
  have hline : w.line ∈ p.lines := List.mem_map_of_mem hw
  rw [lines_eq hplaced] at hline
  obtain ⟨l, hl, hnum⟩ := List.mem_map.mp hline
  obtain ⟨line, hmem, hnum'⟩ := exists_line_of_mem_instructionLines hl
  have hrange := num_of_mem_expandedCode hcode hmem
  omega

/-- A line number is printed without a sign. -/
theorem signedDecimal_line (h : assemble src = .ok p) {w : PlacedWord} (hw : w ∈ p.placed) :
    ∃ n : Nat, w.line = n ∧ Text.signedDecimal w.line = Text.decimal n := by
  obtain ⟨n, hn⟩ := Int.eq_ofNat_of_zero_le (line_nonneg h hw)
  refine ⟨n, hn, ?_⟩
  rw [hn]
  rfl

end

/-! ## Rows -/

namespace Program

theorem labelRow_eq (name position : Text) :
    labelRow name position =
      name.alignLeft 16 ++ Text.space :: position ++ [Text.newline] := by
  unfold labelRow
  rw [List.append_assoc (name.alignLeft 16)]
  rfl

theorem wordRow_eq (position line word instruction : Text) :
    wordRow position line word instruction =
      position.alignLeft 4 ++ Text.space :: (line.alignLeft 4 ++ Text.space ::
        (word.alignLeft 10 ++ Text.space :: instruction)) ++ [Text.newline] := by
  unfold wordRow
  simp only [List.append_assoc, List.cons_append]
  rfl

/-- The words of a row in the first table are the name and the position. -/
theorem words_labelRow (name position : Text) :
    (labelRow name position).words = name.words ++ position.words := by
  rw [labelRow_eq, Text.words_append_newline, Text.words_alignLeft_append]

/-- The words of a row in the second table are those of its columns. -/
theorem words_wordRow (position line word instruction : Text) :
    (wordRow position line word instruction).words =
      position.words ++ (line.words ++ (word.words ++ instruction.words)) := by
  rw [wordRow_eq, Text.words_append_newline, Text.words_alignLeft_append,
    Text.words_alignLeft_append, Text.words_alignLeft_append]

theorem isRow_labelRow {name position : Text} (hname : Text.newline ∉ name)
    (hposition : Text.newline ∉ position) : (labelRow name position).IsRow := by
  refine ⟨_, ?_, labelRow_eq name position⟩
  have hspace : Text.newline ≠ Text.space := by decide
  simp only [List.mem_append, List.mem_cons, not_or]
  exact ⟨Text.newline_not_mem_alignLeft hname 16, hspace, hposition⟩

theorem isRow_wordRow {position line word instruction : Text} (hposition : Text.newline ∉ position)
    (hline : Text.newline ∉ line) (hword : Text.newline ∉ word)
    (hinstruction : Text.newline ∉ instruction) :
    (wordRow position line word instruction).IsRow := by
  refine ⟨_, ?_, wordRow_eq position line word instruction⟩
  have hspace : Text.newline ≠ Text.space := by decide
  simp only [List.mem_append, List.mem_cons, not_or]
  exact ⟨Text.newline_not_mem_alignLeft hposition 4, hspace,
    Text.newline_not_mem_alignLeft hline 4, hspace, Text.newline_not_mem_alignLeft hword 10, hspace,
    hinstruction⟩

/-! ## Rows of an assembled program -/

section

variable {src : Text} {p : Program}

theorem canBeToken_of_mem_sorted (h : assemble src = .ok p) {entry : Text × Nat}
    (hentry : entry ∈ p.symbols.sorted) : entry.1.CanBeToken :=
  canBeToken_of_mem_symbols h (List.mem_map_of_mem (p.symbols.sorted_perm.mem_iff.mp hentry))

/-- The row of a label has two words, whatever bytes the label is made of. -/
theorem words_of_mem_sorted (h : assemble src = .ok p) {entry : Text × Nat}
    (hentry : entry ∈ p.symbols.sorted) :
    (labelRow entry.1 (Text.decimal entry.2)).words = [entry.1, Text.decimal entry.2] := by
  rw [words_labelRow, (canBeToken_of_mem_sorted h hentry).words,
    (Text.canBeToken_decimal entry.2).words]
  rfl

/-- The row of a word at a position. -/
def placedRow (w : PlacedWord) (position : Nat) : Text :=
  wordRow (Text.decimal position) (Text.signedDecimal w.line) (Word.bits w.word)
    (Word.decode w.word).mnemonic

/-- The row of a word has its position, its line, its bits and the words of its instruction. -/
theorem words_placedRow (h : assemble src = .ok p) {w : PlacedWord} (hw : w ∈ p.placed)
    (position : Nat) :
    (placedRow w position).words = Text.decimal position :: Text.signedDecimal w.line ::
      Word.bits w.word :: (Word.decode w.word).mnemonic.words := by
  obtain ⟨n, _, hline⟩ := signedDecimal_line h hw
  unfold placedRow
  rw [words_wordRow, hline, (Text.canBeToken_decimal position).words,
    (Text.canBeToken_decimal n).words, (Word.canBeToken_bits w.word).words]
  rfl

/-- Every part of a dump is one line. -/
theorem isRow_of_mem_dumpLines (h : assemble src = .ok p) {row : Text} (hrow : row ∈ p.dumpLines) :
    row.IsRow := by
  unfold dumpLines at hrow
  simp only [List.cons_append, List.mem_cons, List.mem_append] at hrow
  rcases hrow with rfl | hrow | rfl | rfl | hrow
  · exact isRow_labelRow (by decide) (by decide)
  · obtain ⟨entry, hentry, rfl⟩ := List.mem_map.mp hrow
    exact isRow_labelRow (canBeToken_of_mem_sorted h hentry).newline_not_mem
      (Text.canBeToken_decimal entry.2).newline_not_mem
  · exact ⟨[], List.not_mem_nil, rfl⟩
  · exact isRow_wordRow (by decide) (by decide) (by decide) (by decide)
  · obtain ⟨⟨w, position⟩, hmem, rfl⟩ := List.mem_map.mp hrow
    obtain ⟨n, _, hline⟩ := signedDecimal_line h (List.fst_mem_of_mem_zipIdx hmem)
    refine isRow_wordRow (Text.canBeToken_decimal position).newline_not_mem ?_
      (Word.canBeToken_bits w.word).newline_not_mem (newline_not_mem_mnemonic w.word)
    rw [hline]
    exact (Text.canBeToken_decimal n).newline_not_mem

end

end Program

/-! ## Reading a dump -/

namespace Dump

/-- The rows between the first row and the blank one. -/
def labelRows (dump : Text) : List Text :=
  (dump.endedLines.drop 1).takeWhile (· != [Text.newline])

/-- The rows after the blank one and the row that follows it. -/
def wordRows (dump : Text) : List Text :=
  ((dump.endedLines.drop 1).dropWhile (· != [Text.newline])).drop 2

/-- The label and its position on a row. -/
def label (row : Text) : Text × Nat :=
  (row.words.getD 0 [], Text.digitsValue (row.words.getD 1 []))

/-- The word on a row, with its line. -/
def placed (row : Text) : PlacedWord :=
  ⟨Text.digitsValue (row.words.getD 1 []), Word.ofBits (row.words.getD 2 [])⟩

/-- The program that a dump shows. -/
def program (dump : Text) : Program :=
  { placed := (wordRows dump).map placed, symbols := ⟨(labelRows dump).map label⟩ }

section

variable {src : Text} {p : Program}

/-- No row of the first table is blank. -/
theorem ne_blank_of_mem_labelRows (h : assemble src = .ok p) {row : Text}
    (hrow : row ∈ p.labelRows) :
    (row != [Text.newline]) = true := by
  obtain ⟨entry, hentry, rfl⟩ := List.mem_map.mp hrow
  rw [bne_iff_ne]
  intro hblank
  have hwords := Program.words_of_mem_sorted h hentry
  rw [show Program.labelRow entry.1 (Text.decimal entry.2) = _ from hblank] at hwords
  cases hwords

/-- The blank row between the tables is the first one. -/
theorem rows_of_dumpLines (h : assemble src = .ok p) :
    labelRows p.dumpLines.flatten = p.labelRows ∧ wordRows p.dumpLines.flatten = p.wordRows := by
  have hblank : ∀ row ∈ p.labelRows, (row != [Text.newline]) = true :=
    fun _ => ne_blank_of_mem_labelRows h
  have hlines : (Text.endedLines p.dumpLines.flatten).drop 1 =
      p.labelRows ++ utf8 "\n" :: Program.wordRow (utf8 "PC") (utf8 "LINE") (utf8 "WORD")
        (utf8 "INSTRUCTION") :: p.wordRows := by
    rw [Text.endedLines_flatten fun _ => Program.isRow_of_mem_dumpLines h]
    rfl
  unfold labelRows wordRows
  rw [hlines, List.takeWhile_append_of_pos hblank, List.dropWhile_append_of_pos hblank,
    List.takeWhile_cons_of_neg (by decide), List.dropWhile_cons_of_neg (by decide)]
  exact ⟨List.append_nil _, rfl⟩

/-- A dump is read back as the program, with its labels in byte order. -/
theorem program_dumpLines (h : assemble src = .ok p) :
    program p.dumpLines.flatten = { placed := p.placed, symbols := ⟨p.symbols.sorted⟩ } := by
  obtain ⟨hlabels, hwords⟩ := rows_of_dumpLines h
  -- each row of a table is read on its own, and gives back what it was printed for
  have hlabel : p.labelRows.map label = p.symbols.sorted := by
    unfold Program.labelRows
    rw [List.map_map]
    refine (List.map_congr_left ?_).trans (List.map_id _)
    intro entry hentry
    show label (Program.labelRow entry.1 (Text.decimal entry.2)) = entry
    unfold label
    rw [Program.words_of_mem_sorted h hentry]
    exact congrArg (entry.1, ·) (Text.digitsValue_decimal entry.2)
  have hplaced : p.wordRows.map placed = p.placed := by
    unfold Program.wordRows
    rw [List.map_map]
    refine (List.map_congr_left ?_).trans (List.zipIdx_map_fst 1 p.placed)
    intro ⟨w, position⟩ hmem
    have hw := List.fst_mem_of_mem_zipIdx hmem
    -- lines are integers, but those of words are not negative, so the digits are all there is
    obtain ⟨n, hn, hline⟩ := signedDecimal_line h hw
    show placed (Program.placedRow w position) = w
    unfold placed
    rw [Program.words_placedRow h hw, hline]
    show PlacedWord.mk (Text.digitsValue (Text.decimal n)) (Word.ofBits (Word.bits w.word)) = w
    rw [Text.digitsValue_decimal, Word.ofBits_bits, ← hn]
  unfold program
  rw [hlabels, hwords, hlabel, hplaced]

end

/-! ## What a dump shows -/

/-- Rows whose words are the labels of a table, in byte order, with their positions. -/
def ListsLabels (rows : List Text) (t : SymbolTable) : Prop :=
  ∃ labels : List (Text × Nat),
    rows.map Text.words = labels.map (fun (name, position) => [name, Text.decimal position]) ∧
    labels.Pairwise (fun a b => a.1 < b.1) ∧
    ∀ name position, (name, position) ∈ labels ↔ t.find? name = some position

/-- Rows whose words are the position, the line and the bits of each word of a program, and then
those of its mnemonic. -/
def ListsWords (rows : List Text) (p : Program) : Prop :=
  rows.length = p.words.length ∧
  ∀ i w line, p.words[i]? = some w → p.lines[i]? = some line → ∃ row, rows[i]? = some row ∧
    row.words = Text.decimal (i + 1) :: Text.signedDecimal line :: (utf8 "0b" ++ w.bitDigits) ::
      (Word.decode w).mnemonic.words

section

variable {src : Text} {p : Program}

theorem listsLabels_labelRows (h : assemble src = .ok p) : ListsLabels p.labelRows p.symbols := by
  have hnodup := nodup_symbols h
  refine ⟨p.symbols.sorted, ?_, SymbolTable.pairwise_sorted hnodup, ?_⟩
  · unfold Program.labelRows
    rw [List.map_map]
    apply List.map_congr_left
    intro entry hentry
    exact Program.words_of_mem_sorted h hentry
  · intro name position
    rw [SymbolTable.find?_eq_some_iff_mem hnodup]
    exact p.symbols.sorted_perm.mem_iff

theorem listsWords_wordRows (h : assemble src = .ok p) : ListsWords p.wordRows p := by
  refine ⟨?_, ?_⟩
  · unfold Program.wordRows Program.words
    rw [List.length_map, List.length_map, List.length_zipIdx]
  · intro i w line hw hline
    unfold Program.words at hw
    unfold Program.lines at hline
    rw [List.getElem?_map] at hw hline
    obtain ⟨entry, hentry, rfl⟩ := Option.map_eq_some_iff.mp hw
    rw [hentry] at hline
    obtain rfl : entry.line = line := Option.some.inj hline
    refine ⟨Program.placedRow entry (i + 1), ?_, ?_⟩
    · unfold Program.wordRows
      rw [List.getElem?_map, List.getElem?_zipIdx, hentry, Nat.add_comm]
      rfl
    · rw [Program.words_placedRow h (List.mem_of_getElem? hentry), ← Word.bits_eq]

end

end Dump

/-- A dump that is written without a limit is a header, a row for each label, a blank row, a header,
and a row for each word. The words of the rows are the labels, in strict byte order, with their
positions, and the positions, lines and bits of the words. So the words, the lines and the labels of
the program are read back from its dump alone. -/
theorem dump_lossless {src : Text} {p : Program} (h : assemble src = .ok p) {out : Sink}
    (hroom : out.room = none) :
    ∃ (dump labelHeader wordHeader : Text) (labelRows wordRows : List Text),
      (p.dump out).since out = dump ∧
      dump.endedLines = labelHeader :: labelRows ++ [Text.newline] :: wordHeader :: wordRows ∧
      dump.unended = [] ∧
      labelHeader.words = [utf8 "LABEL", utf8 "PC"] ∧ Dump.ListsLabels labelRows p.symbols ∧
      wordHeader.words = [utf8 "PC", utf8 "LINE", utf8 "WORD", utf8 "INSTRUCTION"] ∧
      Dump.ListsWords wordRows p ∧
      (Dump.program dump).words = p.words ∧ (Dump.program dump).lines = p.lines ∧
      ∀ name, (Dump.program dump).symbols.find? name = p.symbols.find? name := by
  have hrows : ∀ row ∈ p.dumpLines, row.IsRow := fun _ => Program.isRow_of_mem_dumpLines h
  refine ⟨p.dumpLines.flatten, _, _, p.labelRows, p.wordRows, ?_, Text.endedLines_flatten hrows,
    Text.unended_flatten hrows, ?_, Dump.listsLabels_labelRows h, ?_, Dump.listsWords_wordRows h,
    ?_⟩
  · unfold Program.dump
    rw [Sink.offerAll_of_unlimited hroom, Sink.since_pushAll]
  · rw [Program.words_labelRow]
    decide
  · rw [Program.words_wordRow]
    decide
  · rw [Dump.program_dumpLines h]
    exact ⟨rfl, rfl, SymbolTable.find?_sorted (nodup_symbols h)⟩

/-- Labels that are a byte of no character, a number, and a name with a colon of its own. -/
def oddLabels : Text := utf8 "💬\nz:\n🤖 📢\n" ++ [0xC2] ++ utf8 ":\n7:\na::\n♿ z"

/-- The odd labels are read back, and no other label is. -/
theorem dump_lossless_odd :
    ∃ p dump, assemble oddLabels = .ok p ∧ (p.dump {}).since {} = dump ∧
      (Dump.program dump).words = [0xE0, 0xD1] ∧ (Dump.program dump).lines = [3, 7] ∧
      (Dump.program dump).symbols.find? (utf8 "z") = some 1 ∧
      (Dump.program dump).symbols.find? [0xC2] = some 2 ∧
      (Dump.program dump).symbols.find? (utf8 "7") = some 2 ∧
      (Dump.program dump).symbols.find? (utf8 "a:") = some 2 ∧
      (Dump.program dump).symbols.find? (utf8 "a") = none := by
  have hrun : assemble oddLabels = .ok
      { placed := [⟨3, 0xE0⟩, ⟨7, 0xD1⟩]
        symbols := ⟨[(utf8 "z", 1), ([0xC2], 2), (utf8 "7", 2), (utf8 "a:", 2)]⟩ } := by
    decide +kernel
  obtain ⟨dump, _, _, _, _, hdump, _, _, _, _, _, _, hwords, hlines, hfind⟩ :=
    dump_lossless hrun (show ({} : Sink).room = none from rfl)
  refine ⟨_, dump, hrun, hdump, hwords, hlines, ?_⟩
  simp only [hfind]
  decide +kernel

end Glyph8
