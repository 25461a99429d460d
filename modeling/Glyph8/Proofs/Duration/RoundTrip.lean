import Glyph8.Proofs.Duration.Fractions

/-!
# Durations read back

A duration is printed in hours, minutes and seconds, or in one smaller unit with decimals. It is
read from a sequence of quantities in any order and with any units. So many texts stand for one
duration, and printing picks one of them.

`Totals t n` stands between the two. It says that a text is a sequence of quantities which come to
`n` nanoseconds, with decimals that need no rounding. Every magnitude is printed as such a text
(`totals_magnitudeText`), by a case for each way of printing. Every such text is read as its sum if
that fits (`readQuantities_of_totals`), by induction on the quantities, with the sum so far carried
along; a quantity is taken apart where it was put together because digits, the point and the letters
of a unit are different bytes (`splitQuantity_append`).

Signs come last. The magnitude of the smallest duration is one larger than that of the largest, so
reading accepts it only after a minus sign (`parse_of_splitSign`).

So each 64-bit duration is read back from its text (`parse_text`). Only 64-bit durations are read
(`inRange_of_parse`), so what is accepted in any other form can be written in the printed one. The
main result is `durations_read_back`.
-/

namespace Glyph8.Duration

/-! ## Texts of quantities -/

/-- A text of quantities and their sum in nanoseconds. The last decimal of each quantity stands for
a whole number of nanoseconds. -/
inductive Totals : Text → Nat → Prop
  | nil : Totals [] 0
  | cons (whole : Nat) {unit total : Nat} {digits name rest : Text}
      (hname : units.lookup name = some unit)
      (hdigits : ∀ b ∈ digits, Text.isDigit b = true) (hdvd : 10 ^ digits.length ∣ unit)
      (hrest : Totals rest total) :
      Totals (Text.decimal whole ++ pointed digits ++ name ++ rest)
        (whole * unit + Text.digitsValue digits * (unit / 10 ^ digits.length) + total)

/-- The names of units are made of unit bytes, and all units are exact. -/
theorem units_spec {name : Text} {unit : Nat} (h : units.lookup name = some unit) :
    name ≠ [] ∧ (∀ b ∈ name, isUnitByte b = true) ∧ 0 < unit ∧ unit < 2 ^ 53 := by
  have hall : ∀ entry ∈ units, entry.1 ≠ [] ∧ (∀ b ∈ entry.1, isUnitByte b = true) ∧
      0 < entry.2 ∧ entry.2 < 2 ^ 53 := by decide +kernel
  obtain ⟨before, after, heq, -⟩ := List.lookup_eq_some_iff.mp h
  apply hall (name, unit)
  rw [heq]
  exact List.mem_append_right before List.mem_cons_self

theorem isDigit_eq_false_of_isUnitByte {b : UInt8} (h : isUnitByte b = true) :
    Text.isDigit b = false := by
  unfold isUnitByte at h
  rw [Bool.and_eq_true, Bool.not_eq_true'] at h
  exact h.2

theorem isUnitByte_eq_false_of_isDigit {b : UInt8} (h : Text.isDigit b = true) :
    isUnitByte b = false := by
  unfold isUnitByte
  rw [h, Bool.not_true, Bool.and_false]

/-- The first byte of a text that is not empty does not change when more follows. -/
theorem mem_of_mem_head?_append {t rest : Text} {b : UInt8} (hne : t ≠ [])
    (h : b ∈ (t ++ rest).head?) : b ∈ t := by
  obtain ⟨c, t, rfl⟩ := List.exists_cons_of_ne_nil hne
  rw [List.cons_append, List.head?_cons, Option.mem_some_iff] at h
  rw [h]
  exact List.mem_cons_self

/-- What follows a quantity is nothing or begins with a digit. -/
theorem Totals.isDigit_head {t : Text} {n : Nat} (h : Totals t n) :
    ∀ b ∈ t.head?, Text.isDigit b = true := by
  intro b hb
  cases h with
  | nil => cases hb
  | cons whole =>
    rw [List.append_assoc, List.append_assoc] at hb
    exact Text.isDigit_of_mem_decimal (mem_of_mem_head?_append (Text.decimal_ne_nil whole) hb)

/-! ## Printing -/

/-- A quantity without decimals. -/
theorem totals_whole {name rest : Text} {unit total : Nat} (whole : Nat)
    (hname : units.lookup name = some unit) (hrest : Totals rest total) :
    Totals (Text.decimal whole ++ name ++ rest) (whole * unit + total) := by
  have hdigits : ∀ b ∈ ([] : Text), Text.isDigit b = true := nofun
  have h := Totals.cons whole hname hdigits (Nat.one_dvd unit) hrest
  have hpointed : pointed [] = [] := rfl
  have hzero : Text.digitsValue [] = 0 := rfl
  rw [hpointed, List.append_nil, hzero, Nat.zero_mul, Nat.add_zero] at h
  exact h

/-- A quantity of a unit of `10 ^ places` nanoseconds, with the decimals of `n`. -/
theorem totals_decimals {name : Text} (places whole n : Nat) (hpos : 0 < places)
    (hname : units.lookup name = some (10 ^ places)) :
    Totals (Text.decimal whole ++ decimals places n ++ name)
      (whole * 10 ^ places + n % 10 ^ places) := by
  have h := Totals.cons whole hname isDigit_of_mem_fractionDigits
    (pow_length_fractionDigits_dvd hpos n) .nil
  rw [digitsValue_fractionDigits hpos n, ← decimals_eq, List.append_nil, Nat.add_zero] at h
  exact h

/-- A quantity with a fixed number of places, and no other after it. -/
theorem totals_fixedPoint {name : Text} {places : Nat} (n : Nat) (hpos : 0 < places)
    (hname : units.lookup name = some (10 ^ places)) :
    Totals (fixedPoint places n ++ name) n := by
  have h := totals_decimals places (n / 10 ^ places) n hpos hname
  rw [Nat.mul_comm, Nat.div_add_mod] at h
  exact h

/-- A quantity that is left out where there are none of its units. -/
theorem totals_optional {name rest : Text} {unit total : Nat} (reached : Prop) [Decidable reached]
    (whole : Nat) (hname : units.lookup name = some unit) (hzero : ¬reached → whole = 0)
    (hrest : Totals rest total) :
    Totals ((if reached then Text.decimal whole ++ name else []) ++ rest)
      (whole * unit + total) := by
  by_cases h : reached
  · rw [if_pos h]
    exact totals_whole whole hname hrest
  · rw [if_neg h, hzero h, Nat.zero_mul, Nat.zero_add]
    exact hrest

/-- Hours, minutes and seconds come to the seconds that they were split from. -/
theorem clock_sum (seconds fraction : Nat) :
    seconds / 3600 * 3600000000000 + (seconds / 60 % 60 * 60000000000 +
      (seconds % 60 * 10 ^ 9 + fraction)) = seconds * 10 ^ 9 + fraction := by omega

/-- A magnitude is printed as quantities that come to it. -/
theorem totals_magnitudeText (n : Nat) : Totals (magnitudeText n) n := by
  have hnano : units.lookup (utf8 "ns") = some 1 := by decide
  have hsecond : units.lookup (utf8 "s") = some (10 ^ 9) := by decide
  have hminute : units.lookup (utf8 "m") = some 60000000000 := by decide
  have hhour : units.lookup (utf8 "h") = some 3600000000000 := by decide
  unfold magnitudeText
  split
  · next hzero =>
    rw [hzero]
    exact totals_whole 0 hsecond .nil
  split
  · have h := totals_whole n hnano .nil
    rw [List.append_nil, Nat.mul_one, Nat.add_zero] at h
    exact h
  split
  · exact totals_fixedPoint n (by decide) (by decide)
  split
  · exact totals_fixedPoint n (by decide) (by decide)
  · have hseconds : n / second * 10 ^ 9 + n % 10 ^ 9 = n := by
      unfold second
      omega
    generalize n / second = seconds at hseconds
    -- from the last quantity to the first, each in front of what is there already
    have h := totals_decimals 9 (seconds % 60) n (by decide) hsecond
    have h := totals_optional (60 ≤ seconds) (seconds / 60 % 60) hminute (by omega) h
    have h := totals_optional (3600 ≤ seconds) (seconds / 3600) hhour (by omega) h
    rw [clock_sum, hseconds] at h
    simp only [List.append_assoc] at h ⊢
    exact h

/-! ## Reading -/

/-- A scan over bytes of one kind stops where they end. -/
theorem scan_append {p : UInt8 → Bool} {run rest : Text} (hrun : ∀ b ∈ run, p b = true)
    (hrest : ∀ b ∈ rest.head?, p b = false) :
    (run ++ rest).takeWhile p = run ∧ (run ++ rest).dropWhile p = rest := by
  rw [List.takeWhile_append_of_pos hrun, List.dropWhile_append_of_pos hrun]
  cases rest with
  | nil => exact ⟨List.append_nil run, rfl⟩
  | cons b rest =>
    have hb : ¬p b = true := by
      rw [hrest b rfl]
      exact Bool.false_ne_true
    rw [List.takeWhile_cons_of_neg hb, List.dropWhile_cons_of_neg hb]
    exact ⟨List.append_nil run, rfl⟩

/-- Decimals end where the unit begins, and without a point there are none. -/
theorem splitDecimals_pointed {digits name rest : Text}
    (hdigits : ∀ b ∈ digits, Text.isDigit b = true) (hne : name ≠ [])
    (hname : ∀ b ∈ name, isUnitByte b = true) :
    splitDecimals (pointed digits ++ (name ++ rest)) = (digits, name ++ rest) := by
  obtain ⟨b, name, rfl⟩ := List.exists_cons_of_ne_nil hne
  have hb := hname b List.mem_cons_self
  unfold pointed
  by_cases hnil : digits = []
  · have hpoint : b ≠ 0x2E := by
      rintro rfl
      exact absurd hb (by decide)
    rw [hnil]
    show splitDecimals (b :: (name ++ rest)) = ([], b :: (name ++ rest))
    rw [splitDecimals, if_neg hpoint]
  · have hhead : ∀ c ∈ (b :: name ++ rest).head?, Text.isDigit c = false := fun c hc =>
      isDigit_eq_false_of_isUnitByte (hname c (mem_of_mem_head?_append hne hc))
    obtain ⟨htake, hdrop⟩ := scan_append hdigits hhead
    rw [if_neg (by rwa [List.isEmpty_iff])]
    show ((digits ++ (b :: name ++ rest)).takeWhile Text.isDigit,
      (digits ++ (b :: name ++ rest)).dropWhile Text.isDigit) = (digits, b :: name ++ rest)
    rw [htake, hdrop]

/-- A printed quantity is taken apart where it was put together. -/
theorem splitQuantity_append {digits name rest : Text} {unit : Nat} (whole : Nat)
    (hname : units.lookup name = some unit) (hdigits : ∀ b ∈ digits, Text.isDigit b = true)
    (hrest : ∀ b ∈ rest.head?, Text.isDigit b = true) :
    splitQuantity (Text.decimal whole ++ pointed digits ++ name ++ rest) =
      (⟨Text.decimal whole, digits, name⟩, rest) := by
  obtain ⟨hne, hbytes, -⟩ := units_spec hname
  -- neither a point nor a unit begins with a digit, so the whole number ends where it should
  have hhead : ∀ b ∈ (pointed digits ++ (name ++ rest)).head?, Text.isDigit b = false := by
    intro b hb
    unfold pointed at hb
    split at hb
    · rw [List.nil_append] at hb
      exact isDigit_eq_false_of_isUnitByte (hbytes b (mem_of_mem_head?_append hne hb))
    · rw [← Option.some.inj hb]
      rfl
  have hwhole : ∀ b ∈ Text.decimal whole, Text.isDigit b = true :=
    fun _ => Text.isDigit_of_mem_decimal
  obtain ⟨htake, hdrop⟩ := scan_append hwhole hhead
  obtain ⟨hunit, hafter⟩ := scan_append hbytes
    fun b hb => isUnitByte_eq_false_of_isDigit (hrest b hb)
  rw [List.append_assoc, List.append_assoc]
  unfold splitQuantity
  dsimp only
  rw [htake, hdrop, splitDecimals_pointed hdigits hne hbytes]
  dsimp only
  rw [hunit, hafter]

theorem maxMagnitude_eq : maxMagnitude = 2 ^ 63 := by decide

/-- A quantity has its value if that fits. -/
theorem value_of_le (text : Text) {digits name : Text} {unit : Nat} (whole : Nat)
    (hname : units.lookup name = some unit) (hdigits : ∀ b ∈ digits, Text.isDigit b = true)
    (hdvd : 10 ^ digits.length ∣ unit)
    (hle : whole * unit + Text.digitsValue digits * (unit / 10 ^ digits.length) ≤ maxMagnitude) :
    Quantity.value text ⟨Text.decimal whole, digits, name⟩ =
      .ok (whole * unit + Text.digitsValue digits * (unit / 10 ^ digits.length)) := by
  obtain ⟨hne, -, hpos, hunit⟩ := units_spec hname
  have hmax := maxMagnitude_eq
  have hlt := Text.digitsValue_lt_pow hdigits
  -- there are no more decimals than the unit has places, so no digit is dropped and nothing rounded
  have hpow : 10 ^ digits.length ≤ unit := Nat.le_of_dvd hpos hdvd
  have hread : readDecimals 0 0 digits = (Text.digitsValue digits, digits.length) :=
    readDecimals_of_le (by omega)
  have hwhole : whole ≤ maxMagnitude / unit := (Nat.le_div_iff_mul_le hpos).mpr (by omega)
  have hquotient : maxMagnitude / unit ≤ maxMagnitude := Nat.div_le_self _ _
  unfold Quantity.value
  dsimp only
  rw [Text.digitsValue_decimal, if_neg (by omega),
    if_neg (by simp [Text.decimal_ne_nil]), if_neg (by simpa using hne), hname]
  dsimp only
  rw [if_neg (by omega), hread]
  dsimp only
  rw [scaleDecimals_of_dvd hpos hunit hdvd hlt, if_neg (by omega)]

/-- One quantity is read and added, if the sum still fits. -/
theorem readQuantities_step {text t rest : Text} {q : Quantity} {total v : Nat} (hne : t ≠ [])
    (hsplit : splitQuantity t = (q, rest)) (hvalue : q.value text = .ok v)
    (hle : total + v ≤ maxMagnitude) :
    readQuantities text total t = readQuantities text (total + v) rest := by
  have hsize : maxMagnitude < UInt64.size := by decide
  rw [readQuantities, if_neg (by rwa [List.isEmpty_iff])]
  split
  · next e herror =>
    rw [hsplit, hvalue] at herror
    cases herror
  · next w hok =>
    rw [hsplit, hvalue] at hok
    cases hok
    dsimp only
    rw [Nat.mod_eq_of_lt (by omega), if_neg (by omega), hsplit]

/-- Quantities are read as their sum if it fits. -/
theorem readQuantities_of_totals {t : Text} {n : Nat} (h : Totals t n) (text : Text) :
    ∀ total, total + n ≤ maxMagnitude → readQuantities text total t = .ok (total + n) := by
  induction h with
  | nil =>
    intro total _
    rw [readQuantities]
    rfl
  | @cons whole unit sum digits name rest hname hdigits hdvd hrest ih =>
    intro total hle
    have hne : Text.decimal whole ++ pointed digits ++ name ++ rest ≠ [] := by
      simp [Text.decimal_ne_nil]
    have hsplit := splitQuantity_append whole hname hdigits hrest.isDigit_head
    have hvalue := value_of_le text whole hname hdigits hdvd (by omega)
    rw [readQuantities_step hne hsplit hvalue (by omega), ih _ (by omega), Nat.add_assoc total]

/-- The sum of what is read fits. -/
theorem le_of_readQuantities {text rest : Text} {total n : Nat} (htotal : total ≤ maxMagnitude)
    (h : readQuantities text total rest = .ok n) : n ≤ maxMagnitude := by
  fun_induction readQuantities text total rest with
  | case1 total rest hempty =>
    cases h
    exact htotal
  | case2 total rest hempty e herror => cases h
  | case3 total rest hempty v hvalue sum hlarge => cases h
  | case4 total rest hempty v hvalue sum hfits ih => exact ih (Nat.not_lt.mp hfits) h

/-! ## Signs -/

/-- A magnitude ends with the last letter of a unit. -/
theorem getLast?_magnitudeText (n : Nat) : (magnitudeText n).getLast? = some 0x73 := by
  have hlast : ∀ front name : Text, name.getLast? = some 0x73 →
      (front ++ name).getLast? = some 0x73 := by
    intro front name h
    rw [List.getLast?_append, h, Option.some_or]
  unfold magnitudeText
  split
  · decide
  split
  · exact hlast _ _ (by decide)
  split
  · exact hlast _ _ (by decide)
  split
  · exact hlast _ _ (by decide)
  · exact hlast _ _ (by decide)

theorem magnitudeText_ne_nil (n : Nat) : magnitudeText n ≠ [] := by
  intro h
  have hlast := getLast?_magnitudeText n
  rw [h] at hlast
  cases hlast

/-- No magnitude is the lone zero, which would need no unit. -/
theorem magnitudeText_ne_zero (n : Nat) : magnitudeText n ≠ utf8 "0" := by
  intro h
  have hlast := getLast?_magnitudeText n
  rw [h] at hlast
  exact absurd hlast (by decide)

/-- Reading a magnitude after a sign, whatever the sign was. -/
theorem parse_of_splitSign {text : Text} {negative : Bool} {n : Nat}
    (hsign : Text.splitSign text = (negative, magnitudeText n)) (hn : n ≤ maxMagnitude) :
    parse text =
      if negative then .ok ⟨-(n : Int)⟩
      else if n = maxMagnitude then .error (.invalid text)
      else .ok ⟨n⟩ := by
  have hread := readQuantities_of_totals (totals_magnitudeText n) text 0 (by omega)
  rw [Nat.zero_add] at hread
  have hempty : ¬(magnitudeText n).isEmpty = true := by
    rw [List.isEmpty_iff]
    exact magnitudeText_ne_nil n
  unfold parse
  rw [hsign]
  dsimp only
  rw [if_neg (magnitudeText_ne_zero n), if_neg hempty, hread]

/-- A magnitude begins with a digit, not with a sign. -/
theorem splitSign_magnitudeText (n : Nat) :
    Text.splitSign (magnitudeText n) = (false, magnitudeText n) := by
  have hhead := (totals_magnitudeText n).isDigit_head
  rcases Text.splitSign_cases (magnitudeText n) with ⟨rest, heq, -⟩ | ⟨rest, heq, -⟩ | hsign
  · rw [heq] at hhead
    exact absurd (hhead _ rfl) (by decide)
  · rw [heq] at hhead
    exact absurd (hhead _ rfl) (by decide)
  · exact hsign

/-- The durations of 64 bits. -/
def InRange (d : Duration) : Prop := -2 ^ 63 ≤ d.nanoseconds ∧ d.nanoseconds < 2 ^ 63

/-- A duration of 64 bits is read back from its text. -/
theorem parse_text {d : Duration} (h : d.InRange) : parse d.text = .ok d := by
  obtain ⟨hlo, hhi⟩ := h
  have hmax := maxMagnitude_eq
  by_cases hneg : d.nanoseconds < 0
  · have htext : Text.splitSign d.text = (true, magnitudeText d.nanoseconds.natAbs) := by
      rw [text, if_pos hneg]
      rfl
    have hvalue : -(d.nanoseconds.natAbs : Int) = d.nanoseconds := by omega
    rw [parse_of_splitSign htext (by omega), if_pos rfl, hvalue]
  · have htext : d.text = magnitudeText d.nanoseconds.natAbs := by
      rw [text, if_neg hneg]
      rfl
    have hvalue : (d.nanoseconds.natAbs : Int) = d.nanoseconds := by omega
    rw [htext, parse_of_splitSign (splitSign_magnitudeText _) (by omega), if_neg Bool.false_ne_true,
      if_neg (by omega), hvalue]

/-- Only durations of 64 bits are read. -/
theorem inRange_of_parse {t : Text} {d : Duration} (h : parse t = .ok d) : d.InRange := by
  have hmax := maxMagnitude_eq
  unfold parse at h
  dsimp only at h
  split at h
  · cases h
    exact ⟨by decide, by decide⟩
  split at h
  · cases h
  split at h
  · cases h
  · next n hread =>
    -- magnitudes go up to that of the least number, which only a negative duration can have
    have hn := le_of_readQuantities (Nat.zero_le _) hread
    unfold InRange
    split at h
    · cases h
      dsimp only
      omega
    split at h
    · cases h
    · cases h
      dsimp only
      omega

/-- A duration of 64 bits is read back from its text, and every text that is accepted as a duration
has a normal form, which is accepted as the same one. -/
theorem durations_read_back :
    (∀ n : Int64, parse (text ⟨n.toInt⟩) = .ok ⟨n.toInt⟩) ∧
      ∀ (t : Text) (d : Duration), parse t = .ok d →
        (∃ n : Int64, d = ⟨n.toInt⟩) ∧ parse d.text = .ok d := by
  refine ⟨fun n => parse_text ⟨n.le_toInt, n.toInt_lt⟩, fun t d h => ?_⟩
  have hrange := inRange_of_parse h
  refine ⟨⟨.ofInt d.nanoseconds, ?_⟩, parse_text hrange⟩
  rw [Int64.toInt_ofInt_of_le hrange.1 hrange.2]

/-- The smallest duration, from a text in another order and with decimals of other units. -/
theorem durations_read_back_lowest :
    parse (utf8 "-0.1µs2562047.h47.0m16.854775708s") = .ok ⟨-2 ^ 63⟩ ∧
      text ⟨-2 ^ 63⟩ = utf8 "-2562047h47m16.854775808s" ∧
      parse (utf8 "-2562047h47m16.854775808s") = .ok ⟨-2 ^ 63⟩ := by
  have hparse : parse (utf8 "-0.1µs2562047.h47.0m16.854775708s") = .ok ⟨-2 ^ 63⟩ := by
    decide +kernel
  have htext : text ⟨-2 ^ 63⟩ = utf8 "-2562047h47m16.854775808s" := by decide +kernel
  have hback := (durations_read_back.2 _ _ hparse).2
  rw [htext] at hback
  exact ⟨hparse, htext, hback⟩

end Glyph8.Duration
