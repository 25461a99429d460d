import Mathlib.Data.List.Induction
import Mathlib.Data.Nat.Digits.Defs
import Glyph8.Proofs.Text.Numerals

/-!
# Which texts are numbers

Immediates and lines of input are read as bytes, and the operands of jumps as signed numbers. This
module says which texts are accepted, in words that do not depend on how they are read.

`IsDecimal` is one or more digits with a value in base ten, and `IsInteger` is a decimal with an
optional sign. Neither has a limit on the length of the text: leading zeros are allowed, and so are
numbers of any size. Reading a byte accepts exactly the decimals up to 255 (`byte?_eq_some_iff`).

Reading a signed number is less tidy. It accepts every integer, and moves one that is too large to
the nearest number of 64 bits (`integer?_of_isInteger`). Beyond that it accepts texts that begin
with a number of more than 64 bits, whatever follows it, since it notices the size before it comes
to the byte that is no digit. `BeginsTooLarge` describes these, and `isSome_integer?_iff` says that
there are no others.

What is read from such a text is as far from zero as 64 bits allow, so it never becomes a
displacement: a small number is read from integers only (`integer?_eq_small_iff`).
-/

namespace Glyph8.Text

/-! ## Unsigned numbers -/

/-- A text is one or more digits with the given value in base ten. -/
structure IsDecimal (t : Text) (n : Nat) : Prop where
  ne_nil : t ≠ []
  isDigit : ∀ b ∈ t, isDigit b = true
  value : Nat.ofDigits 10 (t.reverse.map digitValue) = n

/-- The last digit counts for itself, and the others for ten times as much as before. -/
theorem digitsValue_append_singleton (t : Text) (b : UInt8) :
    digitsValue (t ++ [b]) = 10 * digitsValue t + digitValue b := by
  unfold digitsValue
  rw [List.foldl_append, List.foldl_cons, List.foldl_nil]

/-- The value that is added up from the left is the positional value of the digits. -/
theorem digitsValue_eq_ofDigits (t : Text) :
    digitsValue t = Nat.ofDigits 10 (t.reverse.map digitValue) := by
  -- from the last digit, which is where the value is read last
  induction t using List.reverseRecOn with
  | nil => rfl
  | append_singleton t b ih =>
    rw [digitsValue_append_singleton, ih, List.reverse_append, List.reverse_singleton,
      List.singleton_append, List.map_cons, Nat.ofDigits_cons]
    exact Nat.add_comm _ _

/-- Further digits do not make a number smaller. -/
theorem digitsValue_le_append (t more : Text) : digitsValue t ≤ digitsValue (t ++ more) := by
  induction more using List.reverseRecOn with
  | nil => rw [List.append_nil]
  | append_singleton more b ih =>
    rw [← List.append_assoc, digitsValue_append_singleton]
    omega

/-- What a decimal is, in terms of the functions that read one. -/
theorem isDecimal_iff {t : Text} {n : Nat} :
    IsDecimal t n ↔ t ≠ [] ∧ t.all isDigit = true ∧ digitsValue t = n := by
  rw [digitsValue_eq_ofDigits, List.all_eq_true]
  exact ⟨fun h => ⟨h.ne_nil, h.isDigit, h.value⟩, fun ⟨hne, hdigits, hvalue⟩ =>
    ⟨hne, hdigits, hvalue⟩⟩

theorem natural?_eq_some_iff {t : Text} {n : Nat} : natural? t = some n ↔ IsDecimal t n := by
  rw [isDecimal_iff]
  unfold natural?
  by_cases h : t ≠ [] ∧ t.all isDigit = true
  · have hcond : (!t.isEmpty && t.all isDigit) = true := by
      rw [Bool.and_eq_true, Bool.not_eq_true', List.isEmpty_eq_false_iff]
      exact h
    rw [if_pos hcond, Option.some.injEq]
    exact ⟨fun hn => ⟨h.1, h.2, hn⟩, fun hn => hn.2.2⟩
  · have hcond : ¬(!t.isEmpty && t.all isDigit) = true := by
      rw [Bool.and_eq_true, Bool.not_eq_true', List.isEmpty_eq_false_iff]
      exact h
    rw [if_neg hcond]
    exact ⟨nofun, fun hn => absurd ⟨hn.1, hn.2.1⟩ h⟩

/-- Reading a byte accepts exactly the decimals whose value is a byte. -/
theorem byte?_eq_some_iff {t : Text} {b : UInt8} : byte? t = some b ↔ IsDecimal t b.toNat := by
  rw [← natural?_eq_some_iff]
  unfold byte?
  cases natural? t with
  | none => exact ⟨nofun, nofun⟩
  | some n =>
    show (if n ≤ 255 then some (UInt8.ofNat n) else none) = some b ↔ some n = some b.toNat
    have hb := b.toNat_lt
    rw [Option.some.injEq]
    by_cases hn : n ≤ 255
    · rw [if_pos hn, Option.some.injEq, ← UInt8.toNat_inj, UInt8.toNat_ofNat',
        Nat.mod_eq_of_lt (by omega)]
    · rw [if_neg hn]
      exact ⟨nofun, fun h => absurd h (by omega)⟩

/-- A decimal up to 255 is read as its value, however many zeros it begins with. -/
theorem byte?_of_isDecimal {t : Text} {n : Nat} (h : IsDecimal t n) (hn : n ≤ 255) :
    byte? t = some (UInt8.ofNat n) := by
  rw [byte?_eq_some_iff, UInt8.toNat_ofNat', Nat.mod_eq_of_lt (by omega)]
  exact h

/-- A text is no byte if it is no number, or a number that is too large. -/
theorem byte?_eq_none_iff {t : Text} : byte? t = none ↔ ∀ n ≤ 255, ¬IsDecimal t n := by
  rw [Option.eq_none_iff_forall_ne_some]
  constructor
  · intro h n hn hdecimal
    exact h _ (byte?_of_isDecimal hdecimal hn)
  · intro h b hb
    have hlt := b.toNat_lt
    exact h b.toNat (by omega) (byte?_eq_some_iff.mp hb)

/-! ## Signed numbers -/

/-- A text is a decimal with an optional sign, of the given value. -/
inductive IsInteger : Text → Int → Prop
  | plain {t : Text} {n : Nat} (h : IsDecimal t n) : IsInteger t n
  | plus {t : Text} {n : Nat} (h : IsDecimal t n) : IsInteger (0x2B :: t) n
  | minus {t : Text} {n : Nat} (h : IsDecimal t n) : IsInteger (0x2D :: t) (-n)

/-- A text is an integer. -/
def IsNumber (t : Text) : Prop := ∃ z, IsInteger t z

/-- A text begins with an integer that does not fit 64 bits, even without its sign. -/
def BeginsTooLarge (t : Text) : Prop :=
  ∃ number rest z, t = number ++ rest ∧ IsInteger number z ∧ UInt64.size ≤ z.natAbs

/-- A text is taken for a number: it is one, or it begins with one that is too large. -/
def ReadsAsNumber (t : Text) : Prop := IsNumber t ∨ BeginsTooLarge t

/-- A text begins with a minus sign, with a plus sign, or with neither. -/
theorem splitSign_cases (t : Text) :
    (∃ rest, t = 0x2D :: rest ∧ splitSign t = (true, rest)) ∨
      (∃ rest, t = 0x2B :: rest ∧ splitSign t = (false, rest)) ∨ splitSign t = (false, t) := by
  cases t with
  | nil => exact .inr (.inr rfl)
  | cons b rest =>
    by_cases hminus : b = 0x2D
    · subst hminus
      exact .inl ⟨rest, rfl, rfl⟩
    · by_cases hplus : b = 0x2B
      · subst hplus
        exact .inr (.inl ⟨rest, rfl, rfl⟩)
      · refine .inr (.inr ?_)
        rw [splitSign, if_neg hminus, if_neg hplus]

/-- A sign is no digit. -/
theorem splitSign_of_isDecimal {t : Text} {n : Nat} (h : IsDecimal t n) (rest : Text) :
    splitSign (t ++ rest) = (false, t ++ rest) := by
  obtain ⟨b, t, rfl⟩ := List.exists_cons_of_ne_nil h.ne_nil
  have hb := h.isDigit b List.mem_cons_self
  have hminus : b ≠ 0x2D := by rintro rfl; exact absurd hb (by decide)
  have hplus : b ≠ 0x2B := by rintro rfl; exact absurd hb (by decide)
  rw [List.cons_append, splitSign, if_neg hminus, if_neg hplus]

theorem isInteger_iff {t : Text} {z : Int} :
    IsInteger t z ↔
      ∃ n : Nat, IsDecimal (splitSign t).2 n ∧ z = if (splitSign t).1 then -(n : Int) else n := by
  constructor
  · intro h
    cases h with
    | @plain t n h =>
      have hsplit := splitSign_of_isDecimal h []
      rw [List.append_nil] at hsplit
      rw [hsplit]
      exact ⟨n, h, rfl⟩
    | @plus t n h => exact ⟨n, h, rfl⟩
    | @minus t n h => exact ⟨n, h, rfl⟩
  · rintro ⟨n, hn, rfl⟩
    rcases splitSign_cases t with ⟨rest, rfl, hsplit⟩ | ⟨rest, rfl, hsplit⟩ | hsplit
    · rw [hsplit] at hn ⊢
      exact .minus hn
    · rw [hsplit] at hn ⊢
      exact .plus hn
    · rw [hsplit] at hn ⊢
      exact .plain hn

/-- Being an integer can be decided byte by byte. -/
theorem isNumber_iff {t : Text} : IsNumber t ↔ isSignedDecimal t = true := by
  unfold isSignedDecimal
  rw [Bool.and_eq_true, Bool.not_eq_true', List.isEmpty_eq_false_iff]
  constructor
  · rintro ⟨z, hz⟩
    obtain ⟨n, hn, _⟩ := isInteger_iff.mp hz
    exact ⟨hn.ne_nil, (isDecimal_iff.mp hn).2.1⟩
  · rintro ⟨hne, hdigits⟩
    exact ⟨_, isInteger_iff.mpr ⟨_, isDecimal_iff.mpr ⟨hne, hdigits, rfl⟩, rfl⟩⟩

/-- Digits that stand at the beginning are among the digits that are read. -/
theorem digitsValue_le_takeWhile {number : Text} {n : Nat} (h : IsDecimal number n) (rest : Text) :
    n ≤ digitsValue ((number ++ rest).takeWhile isDigit) := by
  rw [List.takeWhile_append_of_pos h.isDigit, ← (isDecimal_iff.mp h).2.2]
  exact digitsValue_le_append _ _

/-- It is enough to look at all the digits that a text begins with. -/
theorem beginsTooLarge_iff {t : Text} :
    BeginsTooLarge t ↔ UInt64.size ≤ digitsValue ((splitSign t).2.takeWhile isDigit) := by
  constructor
  · rintro ⟨number, rest, z, rfl, hnumber, hlarge⟩
    cases hnumber with
    | plain h =>
      rw [splitSign_of_isDecimal h]
      exact le_trans (by omega) (digitsValue_le_takeWhile h rest)
    | plus h | minus h => exact le_trans (by omega) (digitsValue_le_takeWhile h rest)
  · intro hlarge
    -- the digits behind the sign are a number, and what follows them is not part of it
    generalize hdigits : (splitSign t).2.takeWhile isDigit = digits at hlarge
    have hsplit : (splitSign t).2 = digits ++ (splitSign t).2.dropWhile isDigit := by
      rw [← hdigits, List.takeWhile_append_dropWhile]
    have hne : digits ≠ [] := by
      rintro rfl
      exact absurd hlarge (by decide)
    have hall : digits.all isDigit = true := by
      rw [← hdigits]
      exact List.all_takeWhile
    have hdecimal : IsDecimal digits (digitsValue digits) := isDecimal_iff.mpr ⟨hne, hall, rfl⟩
    rcases splitSign_cases t with ⟨rest, rfl, hsign⟩ | ⟨rest, rfl, hsign⟩ | hsign
    · rw [hsign] at hsplit
      exact ⟨_, _, _, congrArg (List.cons 0x2D) hsplit, .minus hdecimal, by omega⟩
    · rw [hsign] at hsplit
      exact ⟨_, _, _, congrArg (List.cons 0x2B) hsplit, .plus hdecimal, by omega⟩
    · rw [hsign] at hsplit
      exact ⟨_, _, _, hsplit, .plain hdecimal, by omega⟩

theorem isSome_integer?_iff {t : Text} : (integer? t).isSome = true ↔ ReadsAsNumber t := by
  have hreads : (integer? t).isSome = readsAsDigits (splitSign t).2 := by
    unfold integer?
    dsimp only
    cases readsAsDigits (splitSign t).2 with
    | true => rfl
    | false => rfl
  rw [hreads, ReadsAsNumber, isNumber_iff, beginsTooLarge_iff]
  unfold readsAsDigits isSignedDecimal
  rw [Bool.or_eq_true, decide_eq_true_eq]

/-- An integer is read as its value, or as the nearest number of 64 bits. -/
theorem integer?_of_isInteger {t : Text} {z : Int} (h : IsInteger t z) :
    integer? t = some (clamp64 z) := by
  obtain ⟨n, hn, rfl⟩ := isInteger_iff.mp h
  obtain ⟨hne, hdigits, hvalue⟩ := isDecimal_iff.mp hn
  have hreads : readsAsDigits (splitSign t).2 = true := by
    unfold readsAsDigits
    rw [hdigits, Bool.and_true, Bool.or_eq_true, Bool.not_eq_true', List.isEmpty_eq_false_iff]
    exact .inl hne
  have htake : (splitSign t).2.takeWhile isDigit = (splitSign t).2 :=
    List.takeWhile_eq_self_iff.mpr hn.isDigit
  unfold integer?
  dsimp only
  rw [if_pos hreads, htake, hvalue]

/-- A small number is read from the integers of that value, and from nothing else. -/
theorem integer?_eq_small_iff {t : Text} {v : Int} (hlo : -15 ≤ v) (hhi : v ≤ 15) :
    integer? t = some v ↔ IsInteger t v := by
  have hclamp : ∀ z : Int, clamp64 z = v ↔ z = v := by
    intro z
    unfold clamp64 minInt64 maxInt64
    omega
  constructor
  · intro h
    obtain ⟨z, hz⟩ := isNumber_iff.mpr (isSignedDecimal_of_small h hlo hhi)
    rw [integer?_of_isInteger hz, Option.some.injEq, hclamp] at h
    exact h ▸ hz
  · intro h
    rw [integer?_of_isInteger h, (hclamp v).mpr rfl]

end Glyph8.Text
