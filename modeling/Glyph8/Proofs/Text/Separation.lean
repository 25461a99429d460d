import Glyph8.Proofs.Text.Tokens

/-!
# Words stand between blanks

Words are found by reading a text as characters and cutting it where a character is a blank. This
module says what a word is by bytes alone, so that it also has a meaning for a text in which some
bytes are no characters.

A text has no blank exactly if the bytes of no blank occur in it (`solid_iff`). One direction is
that a blank among the runes has its bytes in the text; the other is that these bytes are read as
the blank wherever they stand. So a text can be taken apart at its blanks, whatever its bytes:
`blank_induction` proves a property of every text from texts without a blank and from two shorter
texts with a blank between them.

With it, the words of a text are the pieces in which the bytes of no blank occur, with a blank or an
end of the text on either side (`mem_words_iff`).

The main result, `tokens_split_at_blanks`, is about tokens, which are the words before the first
that begins a comment. A blank between two texts separates their tokens, unless a comment has begun
before it.
-/

namespace Glyph8

/-! ## Blanks among bytes -/

namespace Text

variable {c : Char} {t u w : Text}

/-- A text with a blank has the bytes of that blank. -/
theorem exists_blank {r : Rune} (hr : r ∈ t.runes) (hblank : r.isBlank = true) :
    ∃ before c after, isBlankChar c = true ∧ t = before ++ (String.utf8EncodeChar c ++ after) := by
  cases r with
  | stray b => cases hblank
  | scalar c =>
    obtain ⟨before, after, hrunes⟩ := List.append_of_mem hr
    refine ⟨Rune.encode before, c, Rune.encode after, hblank, ?_⟩
    rw [← encode_runes t, hrunes, Rune.encode_append]
    rfl

/-- A text has no blank if and only if the bytes of none occur in it. -/
theorem solid_iff :
    (∀ r ∈ t.runes, r.isBlank = false) ↔
      ∀ c, isBlankChar c = true → ¬String.utf8EncodeChar c <:+: t := by
  constructor
  · rintro hsolid c hc ⟨before, after, rfl⟩
    have hmem : Rune.scalar c ∈ runes (before ++ String.utf8EncodeChar c ++ after) := by
      rw [List.append_assoc, runes_append_char]
      exact List.mem_append_right _ List.mem_cons_self
    exact Bool.false_ne_true ((hsolid _ hmem).symm.trans hc)
  · intro hbytes r hr
    rw [← Bool.not_eq_true]
    intro hblank
    obtain ⟨before, c, after, hc, rfl⟩ := exists_blank hr hblank
    exact hbytes c hc ⟨before, after, List.append_assoc _ _ _⟩

/-! ## Taking a text apart at its blanks -/

/-- What holds of texts without a blank, and of two texts with a blank between them if it holds of
both, holds of every text. -/
@[elab_as_elim]
theorem blank_induction {P : Text → Prop} (solid : ∀ t, (∀ r ∈ t.runes, r.isBlank = false) → P t)
    (split : ∀ t c u, isBlankChar c = true → P t → P u → P (t ++ (String.utf8EncodeChar c ++ u)))
    (t : Text) : P t := by
  induction h : t.length using Nat.strong_induction_on generalizing t with
  | _ n ih =>
    by_cases hsolid : ∀ r ∈ t.runes, r.isBlank = false
    · exact solid t hsolid
    · simp only [not_forall] at hsolid
      obtain ⟨r, hr, hblank⟩ := hsolid
      obtain ⟨before, c, after, hc, rfl⟩ := exists_blank hr (eq_true_of_ne_false hblank)
      -- both parts are shorter, for the blank has a byte of its own
      obtain ⟨lead, tail, hbytes, _⟩ := Rune.ofLead_utf8EncodeChar c []
      have hlength : before.length + (tail.length + 1 + after.length) = n := by
        rw [← h, hbytes, List.length_append, List.length_append, List.length_cons]
      exact split before c after hc (ih _ (by omega) before rfl) (ih _ (by omega) after rfl)

/-- The text ends in a blank, or is empty. -/
def EndsInBlank (t : Text) : Prop :=
  t = [] ∨ ∃ c, isBlankChar c = true ∧ String.utf8EncodeChar c <:+ t

/-- The text begins with a blank, or is empty. -/
def BeginsWithBlank (t : Text) : Prop :=
  t = [] ∨ ∃ c, isBlankChar c = true ∧ String.utf8EncodeChar c <+: t

/-- A text that ends in a blank takes no part in the words that follow it. -/
theorem words_append_of_endsInBlank (h : t.EndsInBlank) (u : Text) :
    words (t ++ u) = t.words ++ u.words := by
  rcases h with rfl | ⟨c, hc, before, rfl⟩
  · rfl
  · have hwords : words (before ++ String.utf8EncodeChar c) = words before := by
      have happend := words_append_blank hc before []
      rw [List.append_nil] at happend
      exact happend.trans (List.append_nil _)
    rw [List.append_assoc, words_append_blank hc, hwords]

/-- A text that begins with a blank takes no part in the words before it. -/
theorem words_append_of_beginsWithBlank (h : u.BeginsWithBlank) (t : Text) :
    words (t ++ u) = t.words ++ u.words := by
  rcases h with rfl | ⟨c, hc, after, rfl⟩
  · rw [List.append_nil]
    exact (List.append_nil _).symm
  · have hwords : words (String.utf8EncodeChar c ++ after) = words after :=
      words_append_blank hc [] after
    rw [words_append_blank hc, hwords]

/-- `w` is a word of `t`: it is not empty, the bytes of no blank occur in it, and a blank or an end
of the text stands on either side. -/
structure IsWordOf (w t : Text) : Prop where
  ne_nil : w ≠ []
  solid : ∀ c, isBlankChar c = true → ¬String.utf8EncodeChar c <:+: w
  stands : ∃ before after, t = before ++ (w ++ after) ∧ before.EndsInBlank ∧ after.BeginsWithBlank

/-- A word stays one when a blank and more follow the text. -/
theorem IsWordOf.append_blank (h : w.IsWordOf t) (hc : isBlankChar c = true) (u : Text) :
    w.IsWordOf (t ++ (String.utf8EncodeChar c ++ u)) := by
  obtain ⟨hne, hsolid, before, after, rfl, hbefore, hafter⟩ := h
  refine ⟨hne, hsolid, before, after ++ (String.utf8EncodeChar c ++ u), by simp, hbefore, .inr ?_⟩
  rcases hafter with rfl | ⟨d, hd, hafter⟩
  · exact ⟨c, hc, List.prefix_append _ _⟩
  · exact ⟨d, hd, hafter.trans (List.prefix_append _ _)⟩

/-- A word stays one when more and a blank come before the text. -/
theorem IsWordOf.blank_append (h : w.IsWordOf u) (hc : isBlankChar c = true) (t : Text) :
    w.IsWordOf (t ++ (String.utf8EncodeChar c ++ u)) := by
  obtain ⟨hne, hsolid, before, after, rfl, hbefore, hafter⟩ := h
  refine ⟨hne, hsolid, t ++ String.utf8EncodeChar c ++ before, after, by simp, .inr ?_, hafter⟩
  rcases hbefore with rfl | ⟨d, hd, hbefore⟩
  · exact ⟨c, hc, t, (List.append_nil _).symm⟩
  · exact ⟨d, hd, hbefore.trans (List.suffix_append _ _)⟩

/-- Every word stands between blanks. -/
theorem isWordOf_of_mem_words (h : w ∈ t.words) : w.IsWordOf t := by
  induction t using blank_induction with
  | solid t ht =>
    -- the text is its own only word, unless it is empty
    have hne : t ≠ [] := by
      rintro rfl
      cases h
    rw [words_of_solid hne ht, List.mem_singleton] at h
    rw [h]
    exact ⟨hne, solid_iff.mp ht, [], [], (List.append_nil t).symm, .inl rfl, .inl rfl⟩
  | split t c u hc iht ihu =>
    rw [words_append_blank hc] at h
    rcases List.mem_append.mp h with h | h
    · exact (iht h).append_blank hc u
    · exact (ihu h).blank_append hc t

/-- What stands between blanks is a word. -/
theorem IsWordOf.mem_words (h : w.IsWordOf t) : w ∈ t.words := by
  obtain ⟨hne, hsolid, before, after, rfl, hbefore, hafter⟩ := h
  rw [words_append_of_endsInBlank hbefore, words_append_of_beginsWithBlank hafter,
    words_of_solid hne (solid_iff.mpr hsolid)]
  exact List.mem_append_right _ (List.mem_append_left _ List.mem_cons_self)

/-- The words of a text are the pieces between its blanks. -/
theorem mem_words_iff : w ∈ t.words ↔ w.IsWordOf t :=
  ⟨isWordOf_of_mem_words, IsWordOf.mem_words⟩

end Text

/-! ## Tokens -/

namespace Line

variable {c : Char} {t : Text}

/-- One of the words of the text begins a comment. -/
def HasComment (t : Text) : Prop := ∃ w : Text, w.IsWordOf t ∧ w.head? = some commentMark

theorem isComment_iff {w : Text} : isComment w = true ↔ w.head? = some commentMark :=
  beq_iff_eq

/-- A comment begins at a word that begins with the comment sign. -/
theorem hasComment_iff : HasComment t ↔ ∃ w ∈ t.words, isComment w = true := by
  unfold HasComment
  simp only [Text.mem_words_iff, isComment_iff]

/-- After a word that begins a comment there are no tokens. -/
theorem tokens_append_of_hasComment (hc : isBlankChar c = true) (h : HasComment t) (u : Text) :
    tokens (t ++ (String.utf8EncodeChar c ++ u)) = tokens t := by
  obtain ⟨w, hw, hcomment⟩ := hasComment_iff.mp h
  unfold tokens
  rw [Text.words_append_blank hc, List.takeWhile_append, if_neg]
  -- otherwise the tokens of `t` would be all its words
  intro hlength
  have hall := (List.takeWhile_prefix (!isComment ·)).eq_of_length hlength
  have hkept := List.takeWhile_eq_self_iff.mp hall w hw
  rw [hcomment] at hkept
  cases hkept

/-- Without a comment, a blank separates tokens as it separates words. -/
theorem tokens_append_of_not_hasComment (hc : isBlankChar c = true) (h : ¬HasComment t)
    (u : Text) : tokens (t ++ (String.utf8EncodeChar c ++ u)) = tokens t ++ tokens u := by
  have hall : ∀ w ∈ t.words, (!isComment w) = true := by
    intro w hw
    rw [Bool.not_eq_true', ← Bool.not_eq_true]
    exact fun hcomment => h (hasComment_iff.mpr ⟨w, hw, hcomment⟩)
  unfold tokens
  rw [Text.words_append_blank hc, List.takeWhile_append_of_pos hall,
    List.takeWhile_eq_self_iff.mpr hall]

theorem tokens_of_canBeToken (h : t.CanBeToken) : tokens t = [t] := by
  unfold tokens
  rw [h.words, List.takeWhile_cons_of_pos (by rw [h.not_comment]; rfl), List.takeWhile_nil]

/-- What can be a token, by its runes and its first byte. -/
theorem canBeToken_iff :
    t.CanBeToken ↔
      t ≠ [] ∧ (∀ r ∈ t.runes, r.isBlank = false) ∧ t.head? ≠ some commentMark := by
  rw [Ne, Ne, ← isComment_iff, Bool.not_eq_true]
  exact ⟨fun h => ⟨h.ne_nil, h.not_blank, h.not_comment⟩, fun h => ⟨h.1, h.2.1, h.2.2⟩⟩

end Line

/-- A token is not empty, has no blank and does not begin a comment, and a text like that is its own
only token. Tokens with single spaces between them are read back. Two texts with a blank between
them, of whatever bytes, have the tokens of the first if one of its words begins a comment, and
otherwise those of both. -/
theorem tokens_split_at_blanks (t : Text) :
    (∀ w ∈ Line.tokens t,
      w ≠ [] ∧ (∀ r ∈ w.runes, r.isBlank = false) ∧ w.head? ≠ some Line.commentMark) ∧
    (t ≠ [] ∧ (∀ r ∈ t.runes, r.isBlank = false) ∧ t.head? ≠ some Line.commentMark →
      Line.tokens t = [t]) ∧
    Line.tokens (spaced (Line.tokens t)) = Line.tokens t ∧
    ∀ c, isBlankChar c = true → ∀ u : Text,
      (Line.HasComment t →
        Line.tokens (t ++ (String.utf8EncodeChar c ++ u)) = Line.tokens t) ∧
      (¬Line.HasComment t →
        Line.tokens (t ++ (String.utf8EncodeChar c ++ u)) = Line.tokens t ++ Line.tokens u) := by
  refine ⟨?_, ?_, ?_, ?_⟩
  · intro w hw
    exact Line.canBeToken_iff.mp (Line.canBeToken_of_mem_tokens hw)
  · intro h
    exact Line.tokens_of_canBeToken (Line.canBeToken_iff.mpr h)
  · exact Line.tokens_spaced_tokens fun _ => Line.canBeToken_of_mem_tokens
  · intro c hc u
    exact ⟨fun h => Line.tokens_append_of_hasComment hc h u,
      fun h => Line.tokens_append_of_not_hasComment hc h u⟩

/-- A character that is cut short before a blank and bytes after it that are the rest of none, and a
comment before a blank. -/
theorem tokens_split_at_blanks_stray :
    let nextLine : Char := Char.ofNat 0x85
    let wideSpace : Char := Char.ofNat 0x3000
    let cut : Text := [0x61, 0xE2, 0x80]
    let lone : Text := [0x85, 0xA0, 0x23]
    let noted : Text := utf8 "a #b"
    (¬Line.HasComment cut ∧
      Line.tokens (cut ++ (String.utf8EncodeChar nextLine ++ lone)) = [cut, lone]) ∧
    Line.HasComment noted ∧
      Line.tokens (noted ++ (String.utf8EncodeChar wideSpace ++ lone)) = [utf8 "a"] := by
  intro nextLine wideSpace cut lone noted
  have hcut : ¬Line.HasComment cut := by
    rw [Line.hasComment_iff]
    decide +kernel
  have hnoted : Line.HasComment noted := Line.hasComment_iff.mpr (by decide +kernel)
  refine ⟨⟨hcut, ?_⟩, hnoted, ?_⟩
  · have hsplit := (tokens_split_at_blanks cut).2.2.2 nextLine (by decide) lone
    rw [hsplit.2 hcut]
    decide +kernel
  · have hsplit := (tokens_split_at_blanks noted).2.2.2 wideSpace (by decide) lone
    rw [hsplit.1 hnoted]
    decide +kernel

end Glyph8
