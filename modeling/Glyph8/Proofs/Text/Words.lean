import Glyph8.Assembly.Line
import Glyph8.Instruction.Printer
import Glyph8.Proofs.Text.Runes
import Mathlib.Data.List.TakeWhile

/-!
# Words and lines of a text

What the tools print, they print as tokens with spaces between them and as lines with newlines
between them. This module shows that such a text has these tokens and these lines.

It is about texts made of characters, and works with lists of characters throughout: the runes of
such a text are its characters, so cutting at blanks is cutting a list of characters. A token here
is a list of characters, none of which is a blank or the comment sign (`IsToken`). For tokens of any
bytes there is a separate notion, which needs to know how runes are put together.

Main results: `tokens_spaced` for tokens and `lines_joinWith` for lines. The latter asks that no
line holds a newline or ends in a carriage return, since a carriage return before a newline belongs
to the line ending. `blank_not_mem_spaced` is how tokens meet that condition.
-/

namespace Glyph8

/-! ## Words -/

namespace Text

/-- A blank separates the words before it from those after it. -/
theorem words_ofChars_append {blank : Char} (hblank : isBlankChar blank = true)
    (cs ds : List Char) :
    words (ofChars (cs ++ blank :: ds)) = words (ofChars cs) ++ words (ofChars ds) := by
  have hblank : Rune.isBlank (.scalar blank) = true := hblank
  unfold words
  rw [runes_ofChars, List.map_append, List.map_cons, List.splitOnP_append_cons _ _ hblank,
    List.filter_append, List.map_append, runes_ofChars, runes_ofChars]

/-- Characters without a blank are one word. -/
theorem words_ofChars_of_solid {cs : List Char} (hne : cs ≠ [])
    (hsolid : ∀ c ∈ cs, isBlankChar c = false) : words (ofChars cs) = [ofChars cs] := by
  have hrunes : ∀ r ∈ cs.map Rune.scalar, r.isBlank = false := by
    intro r hr
    obtain ⟨c, hc, rfl⟩ := List.mem_map.mp hr
    exact hsolid c hc
  have hkept : (cs.map Rune.scalar).isEmpty = false := by
    rw [List.isEmpty_eq_false_iff]
    exact fun h => hne (List.map_eq_nil_iff.mp h)
  unfold words
  rw [runes_ofChars, List.splitOnP_eq_singleton hrunes]
  simp only [List.filter_cons, hkept, Bool.not_false, if_true, List.filter_nil, List.map_cons,
    List.map_nil, encode_map_scalar]

end Text

/-! ## Tokens -/

/-- Characters that make a token: there are some, and none is a blank or begins a comment. -/
structure IsToken (cs : List Char) : Prop where
  ne_nil : cs ≠ []
  not_blank : ∀ c ∈ cs, isBlankChar c = false
  not_comment : '#' ∉ cs

theorem isToken_singleton {c : Char} (hblank : isBlankChar c = false) (hcomment : c ≠ '#') :
    IsToken [c] :=
  ⟨List.cons_ne_nil c [], List.forall_mem_singleton.mpr hblank,
    List.not_mem_cons_of_ne_of_not_mem hcomment.symm List.not_mem_nil⟩

theorem IsToken.isComment_eq {cs : List Char} (h : IsToken cs) :
    Line.isComment (Text.ofChars cs) = false := by
  unfold Line.isComment
  rw [beq_eq_false_iff_ne]
  intro hhead
  -- the byte that begins a comment is ASCII, so it would have to be a character of the token
  obtain ⟨c, hc, hval⟩ := Text.exists_char_of_mem_ofChars (List.mem_of_head? hhead) (by decide)
  have hc' : c = '#' := Char.toNat_inj.mp (hval.trans (by decide))
  exact h.not_comment (hc' ▸ hc)

variable {ts : List (List Char)}

theorem spaced_map_ofChars (ts : List (List Char)) :
    spaced (ts.map Text.ofChars) = Text.ofChars ([' '].intercalate ts) := by
  unfold spaced Text.joinWith
  induction ts with
  | nil => rfl
  | cons t ts ih =>
    cases ts with
    | nil => rw [List.map_singleton, List.intercalate_singleton, List.intercalate_singleton]
    | cons u ts =>
      rw [List.map_cons] at ih
      rw [List.map_cons, List.map_cons, List.intercalate_cons_cons, ih,
        List.intercalate_cons_cons, Text.ofChars_append, Text.ofChars_append]
      rfl

/-- The words of a text of tokens with spaces between them. -/
theorem words_spaced (h : ∀ t ∈ ts, IsToken t) :
    (spaced (ts.map Text.ofChars)).words = ts.map Text.ofChars := by
  rw [spaced_map_ofChars]
  induction ts with
  | nil => rfl
  | cons t ts ih =>
    have ht := h t List.mem_cons_self
    have hword := Text.words_ofChars_of_solid ht.ne_nil ht.not_blank
    cases ts with
    | nil => rw [List.intercalate_singleton, hword, List.map_singleton]
    | cons u ts =>
      rw [List.intercalate_cons_cons, List.append_assoc, List.singleton_append,
        Text.words_ofChars_append (by decide), hword,
        ih fun v hv => h v (List.mem_cons_of_mem t hv)]
      rfl

/-- The tokens of a text of tokens with spaces between them. -/
theorem tokens_spaced (h : ∀ t ∈ ts, IsToken t) :
    Line.tokens (spaced (ts.map Text.ofChars)) = ts.map Text.ofChars := by
  unfold Line.tokens
  rw [words_spaced h, List.takeWhile_eq_self_iff]
  intro word hword
  obtain ⟨t, ht, rfl⟩ := List.mem_map.mp hword
  rw [(h t ht).isComment_eq]
  rfl

theorem mem_intercalate_singleton {α : Type} {separator c : α} {ts : List (List α)}
    (hc : c ∈ [separator].intercalate ts) : c = separator ∨ ∃ t ∈ ts, c ∈ t := by
  induction ts with
  | nil => cases hc
  | cons t ts ih =>
    cases ts with
    | nil =>
      rw [List.intercalate_singleton] at hc
      exact .inr ⟨t, List.mem_cons_self, hc⟩
    | cons u ts =>
      rw [List.intercalate_cons_cons, List.append_assoc] at hc
      rcases List.mem_append.mp hc with hc | hc
      · exact .inr ⟨t, List.mem_cons_self, hc⟩
      · rcases List.mem_cons.mp hc with hc | hc
        · exact .inl hc
        · rcases ih hc with hc | ⟨v, hv, hc⟩
          · exact .inl hc
          · exact .inr ⟨v, List.mem_cons_of_mem t hv, hc⟩

/-- The only blanks in a text of tokens are the spaces between them. -/
theorem blank_not_mem_spaced (h : ∀ t ∈ ts, IsToken t) (blank : Char) {b : UInt8}
    (hb : blank.toNat = b.toNat) (hascii : b.toNat < 0x80) (hblank : isBlankChar blank = true)
    (hspace : blank ≠ ' ') : b ∉ spaced (ts.map Text.ofChars) := by
  rw [spaced_map_ofChars]
  intro hmem
  obtain ⟨c, hc, hval⟩ := Text.exists_char_of_mem_ofChars hmem hascii
  rw [Char.toNat_inj.mp (hval.trans hb.symm)] at hc
  rcases mem_intercalate_singleton hc with hc | ⟨t, ht, hc⟩
  · exact hspace hc
  · exact Bool.false_ne_true (((h t ht).not_blank blank hc).symm.trans hblank)

/-! ## Lines -/

namespace Text

/-- Lines that do not end in a carriage return have nothing to lose. -/
theorem endLines_eq_self :
    ∀ {ls : List Text}, (∀ l ∈ ls, l.getLast? ≠ some carriageReturn) → endLines ls = ls
  | [], _ => rfl
  | [_], _ => rfl
  | l :: u :: ls, h => by
    have hl : stripReturn l = l := by
      unfold stripReturn
      rw [if_neg (h l List.mem_cons_self)]
    show stripReturn l :: endLines (u :: ls) = _
    rw [hl, endLines_eq_self fun v hv => h v (List.mem_cons_of_mem l hv)]

/-- The lines of a text of lines with newlines between them. -/
theorem lines_joinWith {ls : List Text} (hne : ls ≠ []) (hnewline : ∀ l ∈ ls, newline ∉ l)
    (hreturn : ∀ l ∈ ls, l.getLast? ≠ some carriageReturn) : lines (joinWith newline ls) = ls := by
  unfold lines joinWith
  rw [List.splitOn_intercalate newline hnewline hne, endLines_eq_self hreturn]

end Text

end Glyph8
