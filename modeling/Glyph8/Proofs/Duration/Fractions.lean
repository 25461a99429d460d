import Glyph8.Duration.Parser
import Glyph8.Proofs.Text.Decimals

/-!
# Decimals of a unit

A duration is printed with decimals of its unit, such as `1.5s`. To read them, the digits are scaled
to nanoseconds with numbers of 53 significant bits, and that rounds. So it is not clear that a
printed duration is read back; this module shows that the scaling is exact for printed decimals.

The steps of the scaling are a quotient, a power of ten and a product. Each of them is exact as long
as its result is a whole number below `2 ^ 53` (`nearest_of_dvd`), and all units are small enough
for that. What remains is a condition on the digits: one in the last place must be a whole number of
nanoseconds (`scaleDecimals_of_dvd`).

Printed decimals meet it. A unit of `10 ^ places` nanoseconds is printed with at most that many
decimals, since they are the remainder in all its places with the zeros at the end taken away
(`exists_zeroPad_eq`). Taking zeros away changes the number of places and the value of the digits by
the same power of ten (`fractionDigits_spec`), so nothing is lost (`digitsValue_fractionDigits`).
-/

namespace Glyph8

/-! ## Exact steps -/

namespace Dyadic

/-- A whole number of at most 53 bits is not rounded. -/
theorem nearest_of_dvd {n d : Nat} (hdvd : d ∣ n) (hlt : n / d < 2 ^ 53) :
    nearest n d = ⟨n / d, 0⟩ := by
  have hcond : n % d = 0 ∧ n / d < Nat.pow 2 53 := ⟨Nat.mod_eq_zero_of_dvd hdvd, hlt⟩
  rw [nearest, if_pos hcond]

theorem ofNat_of_lt {n : Nat} (h : n < 2 ^ 53) : ofNat n = ⟨n, 0⟩ := by
  have hnearest := nearest_of_dvd (n := n) (d := 1) (Nat.one_dvd n) (by rwa [Nat.div_one])
  rwa [Nat.div_one] at hnearest

/-- A product of whole numbers is exact if it fits. -/
theorem mul_of_lt {m n : Nat} (h : m * n < 2 ^ 53) : mul ⟨m, 0⟩ ⟨n, 0⟩ = ⟨m * n, 0⟩ :=
  ofNat_of_lt h

/-- A quotient of whole numbers is exact if it is one and what is divided fits. -/
theorem div_of_dvd {m n : Nat} (hdvd : n ∣ m) (h : m < 2 ^ 53) :
    div ⟨m, 0⟩ ⟨n, 0⟩ = ⟨m / n, 0⟩ := by
  show nearest (m * 1) (n * 1) = ⟨m / n, 0⟩
  rw [Nat.mul_one, Nat.mul_one]
  exact nearest_of_dvd hdvd (Nat.lt_of_le_of_lt (Nat.div_le_self m n) h)

/-- A power of ten that fits is exact, since all the powers before it fit. -/
theorem tenPow_of_lt {k : Nat} (h : 10 ^ k < 2 ^ 53) : tenPow k = ⟨10 ^ k, 0⟩ := by
  induction k with
  | zero => rfl
  | succ k ih =>
    have hstep : 10 ^ k * 10 < 2 ^ 53 := h
    rw [tenPow, ih (by omega), mul_of_lt hstep, Nat.pow_succ]

end Dyadic

namespace Duration

/-- Decimals of a unit are scaled exactly if the last place of them is a whole number of
nanoseconds. -/
theorem scaleDecimals_of_dvd {unit n k : Nat} (hpos : 0 < unit) (hunit : unit < 2 ^ 53)
    (hdvd : 10 ^ k ∣ unit) (hn : n < 10 ^ k) :
    scaleDecimals unit n k = n * (unit / 10 ^ k) := by
  have hpow : 10 ^ k ≤ unit := Nat.le_of_dvd hpos hdvd
  have hproduct : n * (unit / 10 ^ k) ≤ unit := by
    calc n * (unit / 10 ^ k) ≤ 10 ^ k * (unit / 10 ^ k) := Nat.mul_le_mul_right _ (by omega)
      _ = unit := Nat.mul_div_cancel' hdvd
  unfold scaleDecimals
  split
  · next hzero => rw [hzero, Nat.zero_mul]
  · rw [Dyadic.ofNat_of_lt (by omega), Dyadic.ofNat_of_lt hunit, Dyadic.tenPow_of_lt (by omega),
      Dyadic.div_of_dvd hdvd hunit, Dyadic.mul_of_lt (by omega)]
    exact Nat.div_one _

end Duration

/-! ## Values of digits -/

namespace Text

theorem digitValue_le {b : UInt8} (h : isDigit b = true) : digitValue b ≤ 9 := by
  have hb := (isDigit_iff b).mp h
  unfold digitValue
  omega

/-- Digits are worth less than the power of ten of their number. -/
theorem digitsValue_lt_pow {t : Text} (h : ∀ b ∈ t, isDigit b = true) :
    digitsValue t < 10 ^ t.length := by
  induction t using List.reverseRecOn with
  | nil => exact Nat.one_pos
  | append_singleton t b ih =>
    have hb := digitValue_le (h b (List.mem_append_right t List.mem_cons_self))
    have ht := ih fun c hc => h c (List.mem_append_left [b] hc)
    rw [digitsValue_append_singleton, List.length_append, List.length_singleton, Nat.pow_succ]
    omega

/-- Each zero at the end makes a number ten times as large. -/
theorem digitsValue_append_zeros (t : Text) (k : Nat) :
    digitsValue (t ++ List.replicate k 0x30) = digitsValue t * 10 ^ k := by
  induction k with
  | zero => rw [List.replicate_zero, List.append_nil, Nat.pow_zero, Nat.mul_one]
  | succ k ih =>
    have hzero : digitValue 0x30 = 0 := rfl
    rw [List.replicate_succ', ← List.append_assoc, digitsValue_append_singleton, ih, hzero,
      Nat.add_zero, Nat.mul_comm 10, Nat.mul_assoc, ← Nat.pow_succ]

theorem digitsValue_zeros_append (k : Nat) (t : Text) :
    digitsValue (List.replicate k 0x30 ++ t) = digitsValue t := by
  induction t using List.reverseRecOn with
  | nil =>
    have hzeros := digitsValue_append_zeros [] k
    rw [List.nil_append] at hzeros
    rw [List.append_nil, hzeros]
    exact Nat.zero_mul _
  | append_singleton t b ih =>
    rw [← List.append_assoc, digitsValue_append_singleton, digitsValue_append_singleton, ih]

theorem digitsValue_zeroPad (width : Nat) (t : Text) :
    digitsValue (zeroPad width t) = digitsValue t := digitsValue_zeros_append _ t

theorem length_zeroPad {width : Nat} {t : Text} (h : t.length ≤ width) :
    (zeroPad width t).length = width := by
  rw [zeroPad, List.length_append, List.length_replicate]
  omega

theorem isDigit_of_mem_zeroPad {width : Nat} {t : Text} (ht : ∀ b ∈ t, isDigit b = true) :
    ∀ b ∈ zeroPad width t, isDigit b = true := by
  intro b hb
  rcases List.mem_append.mp hb with hzero | hb
  · rw [List.eq_of_mem_replicate hzero]
    rfl
  · exact ht b hb

/-- A number below a power of ten has no more digits than that. -/
theorem length_decimal_le {n places : Nat} (hpos : 0 < places) (h : n < 10 ^ places) :
    (decimal n).length ≤ places := by
  show ((Nat.toDigits 10 n).map asciiByte).length ≤ places
  rw [List.length_map]
  exact Nat.toDigits_length 10 n places hpos h

end Text

/-! ## Printed decimals -/

namespace Duration

/-- Only zeros are trimmed. -/
theorem exists_eq_trimZeros_append (t : Text) :
    ∃ k, t = trimZeros t ++ List.replicate k 0x30 := by
  generalize hzeros : t.reverse.takeWhile (· == 0x30) = zeros
  have hall : ∀ b ∈ zeros, b = 0x30 := by
    intro b hb
    rw [← hzeros] at hb
    have hbeq := List.mem_takeWhile_imp (p := (· == 0x30)) hb
    exact eq_of_beq hbeq
  refine ⟨zeros.length, ?_⟩
  calc t = (zeros ++ t.reverse.dropWhile (· == 0x30)).reverse := by
        rw [← hzeros, List.takeWhile_append_dropWhile, List.reverse_reverse]
    _ = trimZeros t ++ zeros.reverse := List.reverse_append
    _ = trimZeros t ++ List.replicate zeros.length 0x30 := by
        rw [List.eq_replicate_iff.mpr ⟨rfl, hall⟩, List.reverse_replicate, List.length_replicate]

/-- The digits that stand after the point in `n / 10 ^ places`. -/
def fractionDigits (places n : Nat) : Text :=
  trimZeros (Text.zeroPad places (Text.decimal (n % 10 ^ places)))

/-- Digits with a point before them, or nothing. -/
def pointed (digits : Text) : Text := if digits.isEmpty then [] else utf8 "." ++ digits

theorem decimals_eq (places n : Nat) : decimals places n = pointed (fractionDigits places n) := rfl

/-- With their zeros put back, the digits are the remainder in all its places. -/
theorem exists_zeroPad_eq (places n : Nat) :
    ∃ k, Text.zeroPad places (Text.decimal (n % 10 ^ places)) =
      fractionDigits places n ++ List.replicate k 0x30 := exists_eq_trimZeros_append _

theorem isDigit_of_mem_fractionDigits {places n : Nat} :
    ∀ b ∈ fractionDigits places n, Text.isDigit b = true := by
  intro b hb
  have hpadded : ∀ c ∈ Text.zeroPad places (Text.decimal (n % 10 ^ places)),
      Text.isDigit c = true := Text.isDigit_of_mem_zeroPad fun _ => Text.isDigit_of_mem_decimal
  obtain ⟨k, hk⟩ := exists_zeroPad_eq places n
  apply hpadded
  rw [hk]
  exact List.mem_append_left _ hb

/-- The zeros that are left out are the only difference between the decimals and the remainder. -/
theorem fractionDigits_spec {places : Nat} (hpos : 0 < places) (n : Nat) :
    ∃ k, (fractionDigits places n).length + k = places ∧
      Text.digitsValue (fractionDigits places n) * 10 ^ k = n % 10 ^ places := by
  have hlt : n % 10 ^ places < 10 ^ places := Nat.mod_lt n (Nat.pow_pos (by decide))
  obtain ⟨k, hk⟩ := exists_zeroPad_eq places n
  refine ⟨k, ?_, ?_⟩
  · have hlength := congrArg List.length hk
    rw [Text.length_zeroPad (Text.length_decimal_le hpos hlt), List.length_append,
      List.length_replicate] at hlength
    exact hlength.symm
  · have hvalue := congrArg Text.digitsValue hk
    rw [Text.digitsValue_append_zeros, Text.digitsValue_zeroPad, Text.digitsValue_decimal] at hvalue
    exact hvalue.symm

/-- A place of the last decimal is a whole number of nanoseconds. -/
theorem pow_length_fractionDigits_dvd {places : Nat} (hpos : 0 < places) (n : Nat) :
    10 ^ (fractionDigits places n).length ∣ 10 ^ places := by
  obtain ⟨k, hlength, -⟩ := fractionDigits_spec hpos n
  exact Nat.pow_dvd_pow 10 (by omega)

/-- The digits count parts of the unit `10 ^ places`, and come to what they were printed for. -/
theorem digitsValue_fractionDigits {places : Nat} (hpos : 0 < places) (n : Nat) :
    Text.digitsValue (fractionDigits places n) *
      (10 ^ places / 10 ^ (fractionDigits places n).length) = n % 10 ^ places := by
  obtain ⟨k, hlength, hvalue⟩ := fractionDigits_spec hpos n
  have hquotient : 10 ^ places / 10 ^ (fractionDigits places n).length = 10 ^ k := by
    rw [Nat.pow_div (by omega) (by decide)]
    congr 1
    omega
  rw [hquotient, hvalue]

/-! ## Decimals that are read -/

/-- All decimals are read if their value fits. -/
theorem readDecimals_of_le {digits : Text} (h : Text.digitsValue digits ≤ maxMagnitude) :
    readDecimals 0 0 digits = (Text.digitsValue digits, digits.length) := by
  -- what is read so far is the value of the digits so far, which the further digits only increase
  suffices hgen : ∀ seen, Text.digitsValue (seen ++ digits) ≤ maxMagnitude →
      readDecimals (Text.digitsValue seen) seen.length digits =
        (Text.digitsValue (seen ++ digits), (seen ++ digits).length) from hgen [] h
  clear h
  induction digits with
  | nil =>
    intro seen _
    rw [List.append_nil]
    rfl
  | cons b rest ih =>
    intro seen hfit
    rw [← List.singleton_append, ← List.append_assoc] at hfit ⊢
    have hnext : Text.digitsValue (seen ++ [b]) ≤ maxMagnitude :=
      Nat.le_trans (Text.digitsValue_le_append (seen ++ [b]) rest) hfit
    have hread := ih (seen ++ [b]) hfit
    rw [Text.digitsValue_append_singleton, List.length_append, List.length_singleton] at hread
    rw [Text.digitsValue_append_singleton] at hnext
    rw [List.singleton_append, readDecimals, if_neg (Nat.not_lt.mpr hnext)]
    exact hread

end Duration

end Glyph8
