import Glyph8.Text.Blank

/-!
# Characters are read back from their bytes

A text is a list of bytes, and its runes are the characters that these bytes encode in UTF-8, with
each byte that belongs to no character on its own. Reading a rune looks at the lead byte, then at as
many continuation bytes as the lead byte announces, and accepts only the shortest encoding of a code
point that is no surrogate.

Encoding is the library's `String.utf8EncodeChar`, which goes by the size of the code point. The two
meet in `ofLead_utf8EncodeChar`: for each of the four sizes, the bytes that encoding gives pass the
checks of reading, and the payloads add up to the code point again. The `ofLead_` lemmas take
reading apart by the lead byte, so that this is left as arithmetic.

From one character it goes on to texts. Whatever follows them, the bytes of a character are read as
that character (`runes_utf8EncodeChar_append`), so a text made of characters has these characters as
its runes (`runes_ofChars`).

An ASCII byte never occurs inside the bytes of another character. Hence an ASCII byte in a text made
of characters is one of them (`exists_char_of_mem_ofChars`), and searching bytes is searching
characters.
-/

namespace Glyph8

/-! ## One character -/

namespace Rune

/-- The range of the bytes that continue a character. -/
theorem isContinuation_iff (b : UInt8) :
    isContinuation b = true ↔ 0x80 ≤ b.toNat ∧ b.toNat ≤ 0xBF := by
  simp [isContinuation, UInt8.le_iff_toNat_le]

/-- The range of the second byte. After four lead bytes it is smaller, to keep out longer spellings,
surrogates and what is too large. -/
theorem isSecond_iff (lead b : UInt8) :
    isSecond lead b = true ↔ (0x80 ≤ b.toNat ∧ b.toNat ≤ 0xBF) ∧
      (lead.toNat = 0xE0 → 0xA0 ≤ b.toNat) ∧ (lead.toNat = 0xED → b.toNat ≤ 0x9F) ∧
      (lead.toNat = 0xF0 → 0x90 ≤ b.toNat) ∧ (lead.toNat = 0xF4 → b.toNat ≤ 0x8F) := by
  have hlead : ∀ n : UInt8, lead = n ↔ lead.toNat = n.toNat := fun n => UInt8.toNat_inj.symm
  unfold isSecond secondBounds
  simp only [hlead, Bool.and_eq_true, decide_eq_true_eq, UInt8.le_iff_toNat_le, UInt8.reduceToNat]
  -- one case for each lead byte that narrows the range of the second, and one for all others
  split
  · simp only [UInt8.reduceToNat]; omega
  · split
    · simp only [UInt8.reduceToNat]; omega
    · split
      · simp only [UInt8.reduceToNat]; omega
      · split
        · simp only [UInt8.reduceToNat]; omega
        · simp only [UInt8.reduceToNat]; omega

section

variable {lead a b c : UInt8} {rest : Text}

theorem ofLead_one (h : lead.toNat < 0x80) :
    ofLead lead rest = (scalar (Char.ofNat lead.toNat), 0) := by
  unfold ofLead
  rw [if_pos (UInt8.lt_iff_toNat_lt.mpr h)]

/-- A character of two bytes. -/
theorem ofLead_two (hlo : 0xC2 ≤ lead.toNat) (hhi : lead.toNat < 0xE0)
    (ha : isContinuation a = true) :
    ofLead lead (a :: rest) =
      (scalar (Char.ofNat ((lead.toNat - 0xC0) * 64 + payload a)), 1) := by
  unfold ofLead
  simp only [UInt8.lt_iff_toNat_lt, UInt8.reduceToNat]
  rw [if_neg (by omega), if_neg (by omega), if_pos hhi, if_pos ha]

/-- A character of three bytes. -/
theorem ofLead_three (hlo : 0xE0 ≤ lead.toNat) (hhi : lead.toNat < 0xF0)
    (ha : isSecond lead a = true) (hb : isContinuation b = true) :
    ofLead lead (a :: b :: rest) =
      (scalar (Char.ofNat (((lead.toNat - 0xE0) * 64 + payload a) * 64 + payload b)), 2) := by
  unfold ofLead
  simp only [UInt8.lt_iff_toNat_lt, UInt8.reduceToNat]
  rw [if_neg (by omega), if_neg (by omega), if_neg (by omega), if_pos hhi, ha, hb]
  rfl

/-- A character of four bytes. -/
theorem ofLead_four (hlo : 0xF0 ≤ lead.toNat) (hhi : lead.toNat < 0xF5)
    (ha : isSecond lead a = true) (hb : isContinuation b = true) (hc : isContinuation c = true) :
    ofLead lead (a :: b :: c :: rest) = (scalar (Char.ofNat
      ((((lead.toNat - 0xF0) * 64 + payload a) * 64 + payload b) * 64 + payload c)), 3) := by
  unfold ofLead
  simp only [UInt8.lt_iff_toNat_lt, UInt8.reduceToNat]
  rw [if_neg (by omega), if_neg (by omega), if_neg (by omega), if_neg (by omega), if_pos hhi, ha,
    hb, hc]
  rfl

end

/-- The bytes of a character, whatever follows them, are read as the character. -/
theorem ofLead_utf8EncodeChar (c : Char) (rest : Text) :
    ∃ lead tail, String.utf8EncodeChar c = lead :: tail ∧
      ofLead lead (tail ++ rest) = (scalar c, tail.length) := by
  have hvalid : c.val.toNat < 0xD800 ∨ 0xDFFF < c.val.toNat ∧ c.val.toNat < 0x110000 := c.valid
  have hscalar : ∀ n k : Nat, n = c.val.toNat → (scalar (Char.ofNat n), k) = (scalar c, k) := by
    intro n k hn
    rw [hn, show Char.ofNat c.val.toNat = c from Char.ofNat_toNat c]
  have hbyte : ∀ n < 256, (UInt8.ofNat n).toNat = n := by
    intro n hn
    rw [UInt8.toNat_ofNat', Nat.mod_eq_of_lt hn]
  -- a case for each length; the value is that of its groups of six bits, taken from the bytes
  fun_cases String.utf8EncodeChar c with
  | case1 v h1 =>
    have hlead := hbyte v (by omega)
    exact ⟨_, _, rfl, (ofLead_one (by omega)).trans (hscalar _ 0 hlead)⟩
  | case2 v h1 h2 =>
    have hlead := hbyte (v / 64 % 32 + 0xC0) (by omega)
    have ha := hbyte (v % 64 + 0x80) (by omega)
    refine ⟨_, _, rfl, (ofLead_two (by omega) (by omega) ?_).trans (hscalar _ 1 ?_)⟩
    · exact (isContinuation_iff _).mpr (by omega)
    · unfold payload
      omega
  | case3 v h1 h2 h3 =>
    have hlead := hbyte (v / 4096 % 16 + 0xE0) (by omega)
    have ha := hbyte (v / 64 % 64 + 0x80) (by omega)
    have hb := hbyte (v % 64 + 0x80) (by omega)
    refine ⟨_, _, rfl, (ofLead_three (by omega) (by omega) ?_ ?_).trans (hscalar _ 2 ?_)⟩
    · exact (isSecond_iff _ _).mpr (by omega)
    · exact (isContinuation_iff _).mpr (by omega)
    · unfold payload
      omega
  | case4 v h1 h2 h3 =>
    have hlead := hbyte (v / 262144 % 8 + 0xF0) (by omega)
    have ha := hbyte (v / 4096 % 64 + 0x80) (by omega)
    have hb := hbyte (v / 64 % 64 + 0x80) (by omega)
    have hc := hbyte (v % 64 + 0x80) (by omega)
    refine ⟨_, _, rfl, (ofLead_four (by omega) (by omega) ?_ ?_ ?_).trans (hscalar _ 3 ?_)⟩
    · exact (isSecond_iff _ _).mpr (by omega)
    · exact (isContinuation_iff _).mpr (by omega)
    · exact (isContinuation_iff _).mpr (by omega)
    · unfold payload
      omega

/-- Bytes that are to be skipped give no rune. -/
theorem decodeFrom_append (tail rest : Text) :
    decodeFrom tail.length (tail ++ rest) = rest.runes := by
  induction tail with
  | nil => rfl
  | cons _ _ ih => exact ih

end Rune

namespace Text

/-- A character at the beginning of a text is its first rune. -/
theorem runes_utf8EncodeChar_append (c : Char) (rest : Text) :
    runes (String.utf8EncodeChar c ++ rest) = .scalar c :: rest.runes := by
  obtain ⟨lead, tail, hbytes, hlead⟩ := Rune.ofLead_utf8EncodeChar c rest
  rw [hbytes, List.cons_append]
  show (Rune.ofLead lead (tail ++ rest)).1 ::
    Rune.decodeFrom (Rune.ofLead lead (tail ++ rest)).2 (tail ++ rest) = _
  rw [hlead, Rune.decodeFrom_append]

theorem ofChars_cons (c : Char) (cs : List Char) :
    ofChars (c :: cs) = String.utf8EncodeChar c ++ ofChars cs := rfl

@[simp] theorem ofChars_append (cs ds : List Char) :
    ofChars (cs ++ ds) = ofChars cs ++ ofChars ds := List.flatMap_append

/-- The runes of a text made of characters are the characters. -/
@[simp] theorem runes_ofChars (cs : List Char) : (ofChars cs).runes = cs.map .scalar := by
  induction cs with
  | nil => rfl
  | cons c cs ih => rw [ofChars_cons, runes_utf8EncodeChar_append, ih, List.map_cons]

/-- Characters as runes are encoded like characters. -/
@[simp] theorem encode_map_scalar (cs : List Char) : Rune.encode (cs.map .scalar) = ofChars cs :=
  List.flatMap_map ..

/-! ## ASCII bytes -/

theorem utf8EncodeChar_of_ascii {c : Char} (h : c.toNat < 0x80) :
    String.utf8EncodeChar c = [c.toNat.toUInt8] := by
  fun_cases String.utf8EncodeChar c with
  | case1 => rfl
  | case2 v hv | case3 v hv | case4 v hv => exact absurd (Nat.le_of_lt_succ h) hv

/-- The bytes of a character that is not ASCII are not ASCII. -/
theorem le_of_mem_utf8EncodeChar {c : Char} (h : 0x80 ≤ c.toNat) {b : UInt8}
    (hb : b ∈ String.utf8EncodeChar c) : 0x80 ≤ b.toNat := by
  have hbyte : ∀ n, 0x80 ≤ n → n < 256 → 0x80 ≤ (UInt8.ofNat n).toNat := by
    intro n hlo hhi
    rw [UInt8.toNat_ofNat', Nat.mod_eq_of_lt hhi]
    exact hlo
  revert hb
  -- all bytes of a longer spelling have their highest bit set, whatever the payload
  fun_cases String.utf8EncodeChar c with
  | case1 v hv => exact absurd h (Nat.not_le_of_lt (Nat.lt_succ_of_le hv))
  | case2 v =>
    intro hb
    simp only [List.mem_cons, List.not_mem_nil, or_false] at hb
    rcases hb with rfl | rfl <;> exact hbyte _ (by omega) (by omega)
  | case3 v =>
    intro hb
    simp only [List.mem_cons, List.not_mem_nil, or_false] at hb
    rcases hb with rfl | rfl | rfl <;> exact hbyte _ (by omega) (by omega)
  | case4 v =>
    intro hb
    simp only [List.mem_cons, List.not_mem_nil, or_false] at hb
    rcases hb with rfl | rfl | rfl | rfl <;> exact hbyte _ (by omega) (by omega)

/-- An ASCII byte in a text made of characters is one of the characters. -/
theorem exists_char_of_mem_ofChars {cs : List Char} {b : UInt8} (hb : b ∈ ofChars cs)
    (hascii : b.toNat < 0x80) : ∃ c ∈ cs, c.toNat = b.toNat := by
  obtain ⟨c, hc, hmem⟩ := List.mem_flatMap.mp hb
  refine ⟨c, hc, ?_⟩
  by_cases h : c.toNat < 0x80
  · rw [utf8EncodeChar_of_ascii h, List.mem_singleton] at hmem
    rw [hmem]
    show c.toNat = (UInt8.ofNat c.toNat).toNat
    rw [UInt8.toNat_ofNat']
    omega
  · have := le_of_mem_utf8EncodeChar (by omega) hmem
    omega

end Text

end Glyph8
