import Glyph8.Proofs.Text.Words

/-!
# Line endings

Texts are bytes, and nothing promises that they are valid UTF-8. Still, lines are cut at newlines
and tokens at blanks, and these cuts must not depend on what a broken character before them
swallows.

The key fact is that reading characters falls into step again. A byte that continues no character
ends whatever a lead byte before it has begun (`ofLead_append_start`), so the bytes of a character
are read as that character wherever they stand (`runes_append_char`). The proof is by induction
along the bytes, with the number of bytes still to be skipped carried along; it may be no more than
there are left, which is what `ofLead_le_length` keeps.

For an ASCII character this is one byte (`runes_append_ascii`). So a carriage return at the end of a
line makes no word of the line longer (`words_stripReturn`): a text with carriage returns before its
newlines has the same tokens.

The rest is about where lines begin and end. What follows a newline has its own lines
(`exists_lines_append`), and what has no newline goes to the end of the last line
(`exists_lines_append_line`). Both are stated for every continuation of a text at once, so that a
source text can be extended without looking at it again.
-/

namespace Glyph8

/-! ## Where runes begin -/

namespace Rune

/-- A byte that continues no character ends what a lead byte before it begins. -/
theorem ofLead_append_start {b : UInt8} (hb : isContinuation b = false) (lead : UInt8)
    (rest more : Text) : ofLead lead (rest ++ b :: more) = ofLead lead rest := by
  have hsecond : isSecond lead b = false := by
    rw [← Bool.not_eq_true, isContinuation_iff] at hb
    rw [← Bool.not_eq_true, isSecond_iff]
    omega
  unfold ofLead
  -- the byte is met by each of the tests that a character of two, three or four bytes has to pass
  rcases rest with _ | ⟨a₁, _ | ⟨a₂, _ | ⟨a₃, rest⟩⟩⟩
  · rcases more with _ | ⟨c₁, _ | ⟨c₂, more⟩⟩ <;> simp [hb, hsecond]
  · rcases more with _ | ⟨c₁, more⟩ <;> simp [hb]
  · simp [hb]
  · rfl

/-- A rune takes no more bytes than there are. -/
theorem ofLead_le_length (lead : UInt8) (rest : Text) : (ofLead lead rest).2 ≤ rest.length := by
  unfold ofLead
  rcases rest with _ | ⟨a₁, _ | ⟨a₂, _ | ⟨a₃, rest⟩⟩⟩ <;> simp only <;> split_ifs <;> simp

/-- Runes before such a byte are the same without it, if no byte of it is to be skipped. -/
theorem decodeFrom_append_start {b : UInt8} (hb : isContinuation b = false) (u : Text) :
    ∀ (t : Text) (skip : Nat), skip ≤ t.length →
      decodeFrom skip (t ++ b :: u) = decodeFrom skip t ++ Text.runes (b :: u) := by
  intro t
  -- what is skipped lies in `t`, so the byte itself is never skipped
  induction t with
  | nil =>
    intro skip hskip
    rw [Nat.le_zero.mp hskip]
    rfl
  | cons lead t ih =>
    intro skip hskip
    cases skip with
    | succ skip => exact ih skip (Nat.le_of_succ_le_succ hskip)
    | zero =>
      show (ofLead lead (t ++ b :: u)).1 :: decodeFrom (ofLead lead (t ++ b :: u)).2 (t ++ b :: u) =
        (ofLead lead t).1 :: decodeFrom (ofLead lead t).2 t ++ _
      rw [ofLead_append_start hb, ih _ (ofLead_le_length lead t), List.cons_append]

/-- The first byte of a character continues no other. -/
theorem isContinuation_of_utf8EncodeChar {c : Char} {lead : UInt8} {tail : Text}
    (h : String.utf8EncodeChar c = lead :: tail) : isContinuation lead = false := by
  obtain ⟨lead', tail', hbytes, hlead⟩ := ofLead_utf8EncodeChar c []
  obtain ⟨rfl, rfl⟩ := List.cons.inj (hbytes.symm.trans h)
  rw [← Bool.not_eq_true, isContinuation_iff]
  rintro ⟨hlo, hhi⟩
  -- a continuation byte where a rune begins is read as a rune of its own, which is no character
  have hstray : ofLead lead' (tail' ++ []) = (stray lead', 0) := by
    unfold ofLead
    simp only [UInt8.lt_iff_toNat_lt, UInt8.reduceToNat]
    rw [if_neg (by omega), if_pos (by omega)]
  exact nomatch congrArg Prod.fst (hstray.symm.trans hlead)

end Rune

namespace Text

/-- A character is read as such, whatever bytes stand around it. -/
theorem runes_append_char (c : Char) (t u : Text) :
    runes (t ++ (String.utf8EncodeChar c ++ u)) = t.runes ++ .scalar c :: u.runes := by
  obtain ⟨lead, tail, hbytes, _⟩ := Rune.ofLead_utf8EncodeChar c []
  have hstart := Rune.isContinuation_of_utf8EncodeChar hbytes
  rw [← runes_utf8EncodeChar_append, hbytes]
  exact Rune.decodeFrom_append_start hstart (tail ++ u) t 0 (Nat.zero_le _)

/-- A blank separates words, also after bytes that are no character. -/
theorem words_append_blank {c : Char} (hc : isBlankChar c = true) (t u : Text) :
    words (t ++ (String.utf8EncodeChar c ++ u)) = t.words ++ u.words := by
  have hblank : Rune.isBlank (.scalar c) = true := hc
  unfold words
  rw [runes_append_char, List.splitOnP_append_cons _ _ hblank, List.filter_append, List.map_append]

/-- An ASCII character is its own byte. -/
theorem utf8EncodeChar_ofNat_ascii {b : UInt8} (hb : b.toNat < 0x80) :
    String.utf8EncodeChar (Char.ofNat b.toNat) = [b] := by
  have hvalue : (Char.ofNat b.toNat).toNat = b.toNat := by
    unfold Char.ofNat
    rw [dif_pos (by left; omega)]
    rfl
  rw [utf8EncodeChar_of_ascii (by omega), hvalue]
  exact congrArg (fun b => [b]) UInt8.ofNat_toNat

/-- A byte that is ASCII separates the runes before it from those after it. -/
theorem runes_append_ascii {b : UInt8} (hb : b.toNat < 0x80) (t u : Text) :
    runes (t ++ b :: u) = t.runes ++ .scalar (Char.ofNat b.toNat) :: u.runes := by
  rw [← runes_append_char, utf8EncodeChar_ofNat_ascii hb, List.singleton_append]

theorem words_append_ascii {b : UInt8} (hb : b.toNat < 0x80)
    (hblank : isBlankChar (Char.ofNat b.toNat) = true) (t u : Text) :
    words (t ++ b :: u) = t.words ++ u.words := by
  rw [← words_append_blank hblank, utf8EncodeChar_ofNat_ascii hb, List.singleton_append]

/-! ## Carriage returns -/

/-- A line ends in a carriage return that is taken away, or it is left as it is. -/
theorem stripReturn_cases (line : Text) :
    stripReturn line = line ∨ line = stripReturn line ++ [carriageReturn] := by
  unfold stripReturn
  by_cases hlast : line.getLast? = some carriageReturn
  · right
    obtain ⟨rest, rfl⟩ := List.getLast?_eq_some_iff.mp hlast
    rw [if_pos hlast, List.dropLast_concat]
  · left
    rw [if_neg hlast]

theorem stripReturn_concat (line : Text) : stripReturn (line ++ [carriageReturn]) = line := by
  unfold stripReturn
  rw [if_pos List.getLast?_concat, List.dropLast_concat]

/-- The carriage return at the end of a line belongs to no word. -/
theorem words_stripReturn (line : Text) : words (stripReturn line) = line.words := by
  rcases stripReturn_cases line with hline | hline
  · rw [hline]
  · rw [hline, words_append_ascii (by decide) (by decide), ← hline]
    exact (List.append_nil _).symm

/-- No other character goes with the carriage return. -/
theorem hasChar_stripReturn {c : Char} (hc : c ≠ '\r') (line : Text) :
    hasChar c (stripReturn line) = hasChar c line := by
  rcases stripReturn_cases line with hline | hline
  · rw [hline]
  · have hne : Rune.scalar c ≠ .scalar '\r' := fun h => hc (Rune.scalar.inj h)
    unfold hasChar
    rw [hline, runes_append_ascii (by decide), ← hline]
    simp [List.contains_eq_mem, show Char.ofNat carriageReturn.toNat = '\r' by decide, hne, runes,
      Rune.decodeFrom]

end Text

/-- A carriage return at the end does not change the tokens of a line. -/
theorem Line.tokens_stripReturn (line : Text) : tokens (Text.stripReturn line) = tokens line := by
  unfold tokens
  rw [Text.words_stripReturn]

/-! ## Lines -/

/-- The pieces of a list have the elements of the list that it was not split on. -/
theorem mem_of_mem_splitOnP {α : Type} {p : α → Bool} {x : α} :
    ∀ {xs piece : List α}, piece ∈ xs.splitOnP p → x ∈ piece → x ∈ xs ∧ p x = false := by
  intro xs
  induction xs with
  | nil =>
    intro piece hpiece hx
    rw [List.splitOnP_nil, List.mem_singleton] at hpiece
    rw [hpiece] at hx
    cases hx
  | cons y ys ih =>
    intro piece hpiece hx
    have hrest : ∀ rest ∈ ys.splitOnP p, x ∈ rest → x ∈ y :: ys ∧ p x = false := by
      intro rest hmem hx
      exact ⟨List.mem_cons_of_mem y (ih hmem hx).1, (ih hmem hx).2⟩
    rw [List.splitOnP_cons_eq_if_modifyHead] at hpiece
    by_cases hy : p y = true
    · rw [if_pos hy] at hpiece
      rcases List.mem_cons.mp hpiece with rfl | hpiece
      · cases hx
      · exact hrest piece hpiece hx
    · -- the element is put in front of the first of the pieces that follow
      rw [if_neg hy] at hpiece
      obtain ⟨first, others, hsplit⟩ := List.exists_cons_of_ne_nil (List.splitOnP_ne_nil p ys)
      rw [hsplit, List.modifyHead_cons] at hpiece
      rw [hsplit] at hrest
      rcases List.mem_cons.mp hpiece with rfl | hpiece
      · rcases List.mem_cons.mp hx with rfl | hx
        · exact ⟨List.mem_cons_self, Bool.eq_false_iff.mpr hy⟩
        · exact hrest first List.mem_cons_self hx
      · exact hrest piece (List.mem_cons_of_mem _ hpiece) hx

namespace Text

/-- All pieces but the last are followed by a newline. -/
theorem endLines_append {rest : List Text} (h : rest ≠ []) (pieces : List Text) :
    endLines (pieces ++ rest) = pieces.map stripReturn ++ endLines rest := by
  induction pieces with
  | nil => rfl
  | cons piece pieces ih =>
    obtain ⟨next, others, hnext⟩ :=
      List.exists_cons_of_ne_nil (List.append_ne_nil_of_right_ne_nil pieces h)
    rw [List.cons_append, List.map_cons, List.cons_append, ← ih, hnext]
    rfl

theorem splitOn_append_newline (t u : Text) :
    (t ++ newline :: u).splitOn newline = t.splitOn newline ++ u.splitOn newline := by
  simp only [List.splitOn_eq_splitOnP]
  exact List.splitOnP_append_cons t u (beq_self_eq_true newline)

/-- The lines of a text, and the pieces between its newlines that they come from. -/
theorem exists_pieces (t : Text) :
    ∃ pieces last, t.splitOn newline = pieces ++ [last] ∧
      t.lines = pieces.map stripReturn ++ [last] := by
  obtain ⟨pieces, last, hpieces⟩ : ∃ pieces last, t.splitOn newline = pieces ++ [last] := by
    rcases List.eq_nil_or_concat (t.splitOn newline) with hnil | ⟨pieces, last, hpieces⟩
    · exact absurd hnil (List.splitOn_ne_nil _ _)
    · exact ⟨pieces, last, hpieces.trans List.concat_eq_append⟩
  refine ⟨pieces, last, hpieces, ?_⟩
  unfold lines
  rw [hpieces, endLines_append (List.cons_ne_nil last [])]
  rfl

/-- What follows a newline has its own lines. The last line before the newline loses the carriage
return that it may end in. -/
theorem exists_lines_append (t : Text) :
    ∃ before last, t.lines = before ++ [last] ∧
      ∀ u : Text, lines (t ++ newline :: u) = before ++ stripReturn last :: u.lines := by
  obtain ⟨pieces, last, hpieces, hlines⟩ := exists_pieces t
  refine ⟨pieces.map stripReturn, last, hlines, ?_⟩
  intro u
  unfold lines
  rw [splitOn_append_newline, endLines_append (List.splitOn_ne_nil _ _), hpieces, List.map_append,
    List.append_assoc]
  rfl

theorem newline_not_mem_stripReturn {l : Text} (h : newline ∉ l) : newline ∉ stripReturn l := by
  rcases stripReturn_cases l with hl | hl
  · rw [hl]
    exact h
  · intro hmem
    rw [hl] at h
    exact h (List.mem_append_left _ hmem)

theorem newline_not_mem_of_mem_splitOn {t piece : Text} (h : piece ∈ t.splitOn newline) :
    newline ∉ piece := by
  intro hmem
  rw [List.splitOn_eq_splitOnP] at h
  exact nomatch (mem_of_mem_splitOnP h hmem).2.symm.trans (beq_self_eq_true newline)

theorem newline_not_mem_of_mem_lines {t l : Text} (h : l ∈ t.lines) : newline ∉ l := by
  obtain ⟨pieces, last, hpieces, hlines⟩ := exists_pieces t
  have hpiece : ∀ piece ∈ pieces ++ [last], newline ∉ piece := by
    rw [← hpieces]
    exact fun _ => newline_not_mem_of_mem_splitOn
  rw [hlines] at h
  rcases List.mem_append.mp h with hl | hl
  · obtain ⟨piece, hmem, rfl⟩ := List.mem_map.mp hl
    exact newline_not_mem_stripReturn (hpiece piece (List.mem_append_left _ hmem))
  · exact hpiece l (List.mem_append_right _ hl)

/-! ## The first and the last line -/

theorem lines_of_not_mem {l : Text} (h : newline ∉ l) : lines l = [l] := by
  unfold lines
  rw [List.splitOn_eq_singleton h]
  rfl

/-- The first line ends at the first newline. -/
theorem lines_append_newline {l : Text} (h : newline ∉ l) (u : Text) :
    lines (l ++ newline :: u) = stripReturn l :: u.lines := by
  obtain ⟨before, last, hlines, hjoin⟩ := exists_lines_append l
  rw [lines_of_not_mem h] at hlines
  obtain ⟨rfl, rfl⟩ := List.append_singleton_inj.mp (List.nil_append [l] |>.trans hlines)
  exact hjoin u

/-- What is put after joined pieces is put after the last of them. -/
theorem joinWith_append (separator : UInt8) (pieces : List Text) (last more : Text) :
    joinWith separator (pieces ++ [last]) ++ more =
      joinWith separator (pieces ++ [last ++ more]) := by
  unfold joinWith
  induction pieces with
  | nil =>
    rw [List.nil_append, List.nil_append, List.intercalate_singleton, List.intercalate_singleton]
  | cons piece pieces ih =>
    rw [List.cons_append, List.cons_append, List.intercalate_cons_of_ne_nil (by simp),
      List.intercalate_cons_of_ne_nil (by simp), List.append_assoc, ih]

/-- What has no newline goes to the end of the last line. -/
theorem exists_lines_append_line (t : Text) :
    ∃ before last, t.lines = before ++ [last] ∧
      ∀ more : Text, newline ∉ more → lines (t ++ more) = before ++ [last ++ more] := by
  obtain ⟨pieces, last, hpieces, hlines⟩ := exists_pieces t
  refine ⟨pieces.map stripReturn, last, hlines, ?_⟩
  intro more hmore
  have hpiece : ∀ piece ∈ pieces ++ [last], newline ∉ piece := by
    rw [← hpieces]
    exact fun _ => newline_not_mem_of_mem_splitOn
  have hpiece' : ∀ piece ∈ pieces ++ [last ++ more], newline ∉ piece := by
    intro piece hmem
    rcases List.mem_append.mp hmem with hmem | hmem
    · exact hpiece piece (List.mem_append_left _ hmem)
    · rw [List.mem_singleton.mp hmem, List.mem_append, not_or]
      exact ⟨hpiece last (List.mem_append_right _ List.mem_cons_self), hmore⟩
  -- more bytes without a newline go to the last piece, which is not stripped
  have ht : t = joinWith newline (pieces ++ [last]) := by
    rw [← hpieces]
    exact (List.intercalate_splitOn newline).symm
  unfold lines
  rw [ht, joinWith_append, joinWith, List.splitOn_intercalate newline hpiece' (by simp),
    endLines_append (List.cons_ne_nil _ [])]
  rfl

end Text

end Glyph8
