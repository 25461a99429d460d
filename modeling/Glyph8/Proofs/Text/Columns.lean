import Glyph8.Proofs.Instruction.Codec
import Glyph8.Proofs.Text.Numerals
import Glyph8.Proofs.Text.Tokens
import Glyph8.Text.Column

/-!
# Words in columns

Listings and dumps are tables: each row has its entries in columns of a fixed width, filled up with
spaces. To read a row back, one splits it at blanks, as the assembler splits a source line. This
module supplies what that needs.

Filling a column up with spaces adds no word and changes none, so a row has the words of its columns
in order (`words_alignLeft_append`, `words_alignRight_append`), however wide the entries are. The
width plays no part: an entry that is too long for its column moves the rest of the row to the
right, and there is still a space after it.

Numbers and bits are single words, as are all ASCII texts above the comment sign
(`canBeToken_of_ascii`). `CanBeToken` is the condition under which a text is a word of its own in
any line.

The last section is about newlines. A row must not hold one before its end, and each kind of entry
is shown to hold none.
-/

namespace Glyph8

namespace Text

/-! ## ASCII texts -/

/-- Every byte of an ASCII text is a character. -/
theorem runes_of_ascii {t : Text} (h : ∀ b ∈ t, b.toNat < 0x80) :
    t.runes = t.map fun b => .scalar (Char.ofNat b.toNat) := by
  induction t with
  | nil => rfl
  | cons b t ih =>
    rw [List.map_cons, ← ih fun c hc => h c (List.mem_cons_of_mem b hc)]
    exact runes_append_ascii (h b List.mem_cons_self) [] t

/-- Of the ASCII characters above the comment sign none is blank. -/
theorem canBeToken_of_ascii {t : Text} (hne : t ≠ [])
    (h : ∀ b ∈ t, 0x23 < b.toNat ∧ b.toNat < 0x80) : t.CanBeToken := by
  refine ⟨hne, ?_, ?_⟩
  · rw [runes_of_ascii fun b hb => (h b hb).2]
    intro r hr
    obtain ⟨b, hb, rfl⟩ := List.mem_map.mp hr
    have hsolid : ∀ n < 0x80, 0x23 < n → isBlankChar (Char.ofNat n) = false := by decide
    exact hsolid b.toNat (h b hb).2 (h b hb).1
  · obtain ⟨b, t, rfl⟩ := List.exists_cons_of_ne_nil hne
    have hb := (h b List.mem_cons_self).1
    show (some b == some Line.commentMark) = false
    rw [beq_eq_false_iff_ne]
    intro hmark
    rw [Option.some.inj hmark] at hb
    exact absurd hb (by decide)

theorem canBeToken_decimal (n : Nat) : (decimal n).CanBeToken := by
  apply canBeToken_of_ascii (decimal_ne_nil n)
  intro b hb
  have hdigit := (isDigit_iff b).mp (isDigit_of_mem_decimal hb)
  omega

end Text

/-- The bits of a word, as they are printed, are one word of a text. -/
theorem Word.canBeToken_bits (w : Word) : w.bits.CanBeToken := by
  rw [w.bits_eq]
  have hmark : ∀ b ∈ utf8 "0b", 0x23 < b.toNat ∧ b.toNat < 0x80 := by decide +kernel
  apply Text.canBeToken_of_ascii (List.append_ne_nil_of_left_ne_nil (by decide) _)
  intro b hb
  rcases List.mem_append.mp hb with hb | hb
  · exact hmark b hb
  · obtain ⟨k, _, rfl⟩ := List.mem_map.mp hb
    split <;> decide

namespace Text

/-! ## Columns -/

theorem words_append_space (t u : Text) : words (t ++ space :: u) = t.words ++ u.words :=
  words_append_ascii (by decide) (by decide) t u

theorem words_space_cons (t : Text) : words (space :: t) = t.words := words_append_space [] t

/-- The newline at the end of a row belongs to no word. -/
theorem words_append_newline (t : Text) : words (t ++ [newline]) = t.words := by
  rw [words_append_ascii (by decide) (by decide)]
  exact List.append_nil _

theorem words_replicate_space_append (n : Nat) (t : Text) :
    words (List.replicate n space ++ t) = t.words := by
  induction n with
  | zero => rfl
  | succ n ih => rw [List.replicate_succ, List.cons_append, words_space_cons, ih]

/-- The words of a row that begins with a column filled up on the right. -/
theorem words_alignLeft_append (width : Nat) (t u : Text) :
    words (alignLeft width t ++ space :: u) = t.words ++ u.words := by
  unfold alignLeft filler
  rw [List.append_assoc]
  -- the first space ends the word, whether it fills the column or follows it
  cases width - t.runes.length with
  | zero => exact words_append_space t u
  | succ n =>
    rw [List.replicate_succ, List.cons_append, words_append_space, words_replicate_space_append,
      words_space_cons]

/-- The words of a row that begins with a column filled up on the left. -/
theorem words_alignRight_append (width : Nat) (t u : Text) :
    words (alignRight width t ++ space :: u) = t.words ++ u.words := by
  unfold alignRight filler
  rw [List.append_assoc, words_replicate_space_append, words_append_space]

/-! ## Lines -/

/-- A newline is a blank, so no token holds one. -/
theorem CanBeToken.newline_not_mem {t : Text} (h : t.CanBeToken) : newline ∉ t :=
  not_mem_of_solid h.not_blank (by decide) (by decide)

theorem newline_not_mem_spaced {ts : List Text} (h : ∀ t ∈ ts, newline ∉ t) :
    newline ∉ spaced ts := by
  intro hmem
  rcases mem_intercalate_singleton hmem with hspace | ⟨t, ht, hmem⟩
  · exact absurd hspace (by decide)
  · exact h t ht hmem

theorem newline_not_mem_filler (width : Nat) (t : Text) : newline ∉ filler width t := by
  intro hmem
  exact absurd (List.eq_of_mem_replicate hmem) (by decide)

theorem newline_not_mem_alignLeft {t : Text} (h : newline ∉ t) (width : Nat) :
    newline ∉ alignLeft width t := by
  intro hmem
  rcases List.mem_append.mp hmem with hmem | hmem
  · exact h hmem
  · exact newline_not_mem_filler width t hmem

theorem newline_not_mem_alignRight {t : Text} (h : newline ∉ t) (width : Nat) :
    newline ∉ alignRight width t := by
  intro hmem
  rcases List.mem_append.mp hmem with hmem | hmem
  · exact newline_not_mem_filler width t hmem
  · exact h hmem

end Text

/-- The readable form of an instruction is on one line. -/
theorem newline_not_mem_mnemonic (w : Word) : Text.newline ∉ (Word.decode w).mnemonic := by
  revert w
  refine forall_byte ?_
  decide +kernel

end Glyph8
