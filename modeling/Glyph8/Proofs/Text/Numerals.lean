import Mathlib.Data.List.TakeWhile
import Glyph8.Text.Numeral

/-!
# Reading numbers back

Whatever is printed in decimal is read back: `byte?_decimal` for bytes, `natural?_decimal` for
numbers of any size and `integer?_signedDecimal` for 64-bit integers. The digits are those of
`Nat.toDigits`, so the value of a printed number comes from the library's `Nat.ofDigitChars`; what
is added here is that digits are one byte each and that adding up bytes is adding up digits
(`foldl_digits_map_asciiByte`).

Reading a signed number takes three things from a printed one: it begins with a digit and not with a
sign (`splitSign_decimal`), all its bytes are digits, so that nothing is left over
(`takeWhile_isDigit_decimal`), and the value is in range.

Reading also accepts some texts that are no numbers, if they begin with a number that is too large.
What it makes of them is never small: `isSignedDecimal_of_small`. Jumps need this, because their
operand is a number or else a label, and a label could begin with many digits.
-/

namespace Glyph8.Text

/-! ## Digits -/

/-- The byte of a digit is its code point. -/
theorem toNat_asciiByte_of_isDigit {c : Char} (h : c.isDigit = true) :
    (asciiByte c).toNat = c.toNat ∧ 48 ≤ c.toNat ∧ c.toNat ≤ 57 := by
  rw [Char.isDigit_iff_toNat] at h
  obtain ⟨hlo, hhi⟩ := h
  have hlo : 48 ≤ c.toNat := hlo
  have hhi : c.toNat ≤ 57 := hhi
  refine ⟨?_, hlo, hhi⟩
  show (UInt8.ofNat c.toNat).toNat = c.toNat
  rw [UInt8.toNat_ofNat']
  omega

theorem isDigit_iff (b : UInt8) : isDigit b = true ↔ 48 ≤ b.toNat ∧ b.toNat ≤ 57 := by
  unfold isDigit
  rw [Bool.and_eq_true, decide_eq_true_eq, decide_eq_true_eq, UInt8.le_iff_toNat_le,
    UInt8.le_iff_toNat_le]
  rfl

theorem isDigit_of_mem_toDigits {n : Nat} {c : Char} (hc : c ∈ Nat.toDigits 10 n) :
    c.isDigit = true := Nat.isDigit_of_mem_toDigits (by decide) (by decide) hc

theorem isDigit_of_mem_decimal {n : Nat} {b : UInt8} (h : b ∈ decimal n) : isDigit b = true := by
  obtain ⟨c, hc, rfl⟩ := List.mem_map.mp h
  obtain ⟨hval, hlo, hhi⟩ := toNat_asciiByte_of_isDigit (isDigit_of_mem_toDigits hc)
  rw [isDigit_iff, hval]
  exact ⟨hlo, hhi⟩

theorem all_isDigit_decimal (n : Nat) : (decimal n).all isDigit = true :=
  List.all_eq_true.mpr fun _ => isDigit_of_mem_decimal

/-- A printed number has at least one digit, also if it is zero. -/
theorem decimal_ne_nil (n : Nat) : decimal n ≠ [] := by
  intro h
  exact Nat.toDigits_ne_nil (List.map_eq_nil_iff.mp h)

/-- Adding up the bytes of digits is adding up the digits. -/
theorem foldl_digits_map_asciiByte :
    ∀ (cs : List Char) (start : Nat), (∀ c ∈ cs, c.isDigit = true) →
      (cs.map asciiByte).foldl (fun n b => 10 * n + digitValue b) start =
        Nat.ofDigitChars 10 cs start := by
  intro cs
  induction cs with
  | nil => intro start _; rfl
  | cons c cs ih =>
    intro start h
    have hc := (toNat_asciiByte_of_isDigit (h c List.mem_cons_self)).1
    rw [List.map_cons, List.foldl_cons, Nat.ofDigitChars_cons,
      ih _ fun d hd => h d (List.mem_cons_of_mem _ hd)]
    unfold digitValue
    rw [hc]
    rfl

/-- A number is the value of its digits. -/
theorem digitsValue_decimal (n : Nat) : digitsValue (decimal n) = n := by
  have hdigits : ∀ c ∈ Nat.toDigits 10 n, c.isDigit = true :=
    fun _ => isDigit_of_mem_toDigits
  show ((Nat.toDigits 10 n).map asciiByte).foldl _ 0 = n
  rw [foldl_digits_map_asciiByte _ 0 hdigits, Nat.ofDigitChars_ten_toDigits]

/-! ## Unsigned numbers -/

theorem natural?_decimal (n : Nat) : natural? (decimal n) = some n := by
  unfold natural?
  rw [all_isDigit_decimal, digitsValue_decimal, Bool.and_true, if_pos]
  rw [Bool.not_eq_true', List.isEmpty_eq_false_iff]
  exact decimal_ne_nil n

theorem byte?_decimal (b : UInt8) : byte? (decimal b.toNat) = some b := by
  unfold byte?
  rw [natural?_decimal]
  show (if b.toNat ≤ 255 then some (UInt8.ofNat b.toNat) else none) = some b
  rw [if_pos (Nat.le_of_lt_succ b.toNat_lt), UInt8.ofNat_toNat]

/-! ## Signed numbers -/

/-- Whether a text is a decimal number with an optional sign. -/
def isSignedDecimal (t : Text) : Bool :=
  !(splitSign t).2.isEmpty && (splitSign t).2.all isDigit

/-- A printed number is accepted digit by digit. -/
theorem readsAsDigits_decimal (n : Nat) : readsAsDigits (decimal n) = true := by
  unfold readsAsDigits
  rw [all_isDigit_decimal, Bool.and_true, Bool.or_eq_true]
  left
  rw [Bool.not_eq_true', List.isEmpty_eq_false_iff]
  exact decimal_ne_nil n

theorem takeWhile_isDigit_decimal (n : Nat) : (decimal n).takeWhile isDigit = decimal n :=
  List.takeWhile_eq_self_iff.mpr fun _ => isDigit_of_mem_decimal

/-- A printed number begins with a digit, not with a sign. -/
theorem splitSign_decimal (n : Nat) : splitSign (decimal n) = (false, decimal n) := by
  cases hd : decimal n with
  | nil => rfl
  | cons b rest =>
    have hmem : b ∈ decimal n := hd ▸ List.mem_cons_self
    have hb := isDigit_of_mem_decimal hmem
    have hminus : b ≠ 0x2D := by rintro rfl; exact absurd hb (by decide)
    have hplus : b ≠ 0x2B := by rintro rfl; exact absurd hb (by decide)
    show (if b = 0x2D then (true, rest) else if b = 0x2B then (false, rest) else (false, b :: rest))
      = (false, b :: rest)
    rw [if_neg hminus, if_neg hplus]

/-- A 64-bit integer is read back. -/
theorem integer?_signedDecimal {d : Int} (hlo : minInt64 ≤ d) (hhi : d ≤ maxInt64) :
    integer? (signedDecimal d) = some d := by
  have hclamp : clamp64 d = d := by unfold clamp64; omega
  cases d with
  | ofNat n =>
    unfold integer? signedDecimal
    simp only [splitSign_decimal, readsAsDigits_decimal, takeWhile_isDigit_decimal,
      digitsValue_decimal, if_true, Bool.false_eq_true, if_false]
    exact congrArg some hclamp
  | negSucc n =>
    have hsplit : splitSign (utf8 "-" ++ decimal (n + 1)) = (true, decimal (n + 1)) := rfl
    unfold integer? signedDecimal
    simp only [hsplit, readsAsDigits_decimal, takeWhile_isDigit_decimal, digitsValue_decimal,
      if_true]
    exact congrArg some hclamp

/-- A text that reads as a small number is a number. -/
theorem isSignedDecimal_of_small {t : Text} {v : Int} (h : integer? t = some v) (hlo : -15 ≤ v)
    (hhi : v ≤ 15) : isSignedDecimal t = true := by
  unfold integer? at h
  rcases hsplit : splitSign t with ⟨negative, digits⟩
  simp only [hsplit] at h
  split at h
  · next hreads =>
    have hv := Option.some.inj h
    unfold isSignedDecimal
    rw [hsplit]
    unfold readsAsDigits at hreads
    rcases Bool.or_eq_true_iff.mp hreads with hall | hlarge
    · exact hall
    · -- a number of more than 64 bits is taken to an end of the range
      exfalso
      have hlarge : 18446744073709551616 ≤ digitsValue (digits.takeWhile isDigit) :=
        of_decide_eq_true hlarge
      unfold clamp64 minInt64 maxInt64 at hv
      split at hv <;> omega
  · cases h

end Glyph8.Text
