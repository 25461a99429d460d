import Glyph8.Duration.Precision
import Glyph8.Duration.Printer

/-!
# Reading durations

A duration is an optional sign and one or more quantities, each a decimal number and a unit. A lone
zero needs no unit. Decimals are kept while they fit 63 bits and are scaled to the unit with 53
significant bits; what is left of a nanosecond is dropped.

Durations are nanoseconds that fit 64 bits with a sign. Magnitudes are read without the sign and may
be as large as that of the least number, which only a negative duration can have. Quantities are
added modulo the range of 64 bits, and each sum is tested. There is one way past this test: two
quantities of the greatest magnitude add up to zero.

A text is split into a whole number, decimals and a unit. Each may be missing, and what is missing
decides which error it is. The recursion over quantities ends because a quantity with a value has a
unit, which takes at least one byte.
-/

namespace Glyph8

/-- Why a text is not a duration. -/
inductive DurationError where
  | invalid (text : Text)
  | missingUnit (text : Text)
  | unknownUnit (unit text : Text)
deriving DecidableEq

namespace Duration

/-- A text in quotation marks, with every byte outside printable ASCII as its number. -/
def quote (t : Text) : Text :=
  let escape (b : UInt8) : Text :=
    if b = 0x22 ∨ b = 0x5C then [0x5C, b]
    else if b < 0x20 ∨ 0x80 ≤ b then utf8 "\\x" ++ Text.hex 2 b.toNat
    else [b]
  utf8 "\"" ++ t.flatMap escape ++ utf8 "\""

end Duration

/-- The text of a duration error. -/
def DurationError.message : DurationError → Text
  | invalid t => utf8 "time: invalid duration " ++ Duration.quote t
  | missingUnit t => utf8 "time: missing unit in duration " ++ Duration.quote t
  | unknownUnit unit t =>
    utf8 "time: unknown unit " ++ Duration.quote unit ++ utf8 " in duration " ++ Duration.quote t

namespace Duration

/-- The units and their nanoseconds. The micro sign and the Greek letter mu are both known. -/
def units : List (Text × Nat) := [
  (utf8 "ns", 1),
  (utf8 "us", 1000),
  (utf8 "µs", 1000),
  (utf8 "μs", 1000),
  (utf8 "ms", 1000000),
  (utf8 "s", 1000000000),
  (utf8 "m", 60000000000),
  (utf8 "h", 3600000000000)]

/-- The largest magnitude of a duration; only a negative duration reaches it. -/
def maxMagnitude : Nat := UInt64.size / 2

/-- Reads decimals as `(n, k)` for `n / 10 ^ k`, leaving out all from the one at which `n` would
exceed the largest magnitude. -/
def readDecimals (n k : Nat) : Text → Nat × Nat
  | [] => (n, k)
  | b :: rest =>
    let next := 10 * n + Text.digitValue b
    if maxMagnitude < next then (n, k) else readDecimals next (k + 1) rest

/-- The whole nanoseconds in `n / 10 ^ k` of a unit. -/
def scaleDecimals (unit n k : Nat) : Nat :=
  if n = 0 then 0
  else ((Dyadic.ofNat n).mul ((Dyadic.ofNat unit).div (Dyadic.tenPow k))).floor

/-- The digits after a decimal point, and the rest. -/
def splitDecimals : Text → Text × Text
  | [] => ([], [])
  | b :: rest =>
    if b = 0x2E then (rest.takeWhile Text.isDigit, rest.dropWhile Text.isDigit)
    else ([], b :: rest)

/-- Whether a byte can be part of a unit. -/
def isUnitByte (b : UInt8) : Bool := b != 0x2E && !Text.isDigit b

/-- One quantity of a duration text. -/
structure Quantity where
  whole : Text
  decimals : Text
  unit : Text
deriving DecidableEq

/-- The first quantity of a text, and the rest. -/
def splitQuantity (t : Text) : Quantity × Text :=
  let afterWhole := t.dropWhile Text.isDigit
  let (decimals, afterNumber) := splitDecimals afterWhole
  (⟨t.takeWhile Text.isDigit, decimals, afterNumber.takeWhile isUnitByte⟩,
    afterNumber.dropWhile isUnitByte)

/-- The nanoseconds of a quantity of the duration `text`. -/
def Quantity.value (text : Text) (q : Quantity) : Except DurationError Nat :=
  let whole := Text.digitsValue q.whole
  if maxMagnitude < whole then .error (.invalid text)
  else if q.whole.isEmpty && q.decimals.isEmpty then .error (.invalid text)
  else if q.unit.isEmpty then .error (.missingUnit text)
  else
    match units.lookup q.unit with
    | none => .error (.unknownUnit q.unit text)
    | some unit =>
      if maxMagnitude / unit < whole then .error (.invalid text)
      else
        let (n, k) := readDecimals 0 0 q.decimals
        let value := whole * unit + scaleDecimals unit n k
        if maxMagnitude < value then .error (.invalid text) else .ok value

theorem length_dropWhile_le (p : UInt8 → Bool) (t : Text) : (t.dropWhile p).length ≤ t.length :=
  (List.dropWhile_suffix p).length_le

theorem length_splitDecimals_le (t : Text) : (splitDecimals t).2.length ≤ t.length := by
  cases t with
  | nil => simp [splitDecimals]
  | cons b rest =>
    simp only [splitDecimals]
    split
    · exact Nat.le_succ_of_le (length_dropWhile_le _ rest)
    · exact Nat.le_refl _

/-- A quantity with a unit takes at least one byte of the text. -/
theorem length_splitQuantity_lt (t : Text) (h : (splitQuantity t).1.unit ≠ []) :
    (splitQuantity t).2.length < t.length := by
  have hnum := length_splitDecimals_le (t.dropWhile Text.isDigit)
  have hwhole := length_dropWhile_le Text.isDigit t
  have hsplit := congrArg List.length
    (List.takeWhile_append_dropWhile (p := isUnitByte)
      (l := (splitDecimals (t.dropWhile Text.isDigit)).2))
  have hunit : 0 < ((splitDecimals (t.dropWhile Text.isDigit)).2.takeWhile isUnitByte).length :=
    List.length_pos_iff.mpr h
  simp only [List.length_append] at hsplit
  show ((splitDecimals (t.dropWhile Text.isDigit)).2.dropWhile isUnitByte).length < t.length
  omega

/-- Only a quantity with a unit has a value. -/
theorem Quantity.unit_ne_nil_of_value {text : Text} {q : Quantity} {v : Nat}
    (h : q.value text = .ok v) : q.unit ≠ [] := by
  intro hnil
  unfold Quantity.value at h
  simp only [hnil, List.isEmpty_nil, if_true] at h
  split at h
  · cases h
  · split at h <;> cases h

/-- Adds the quantities of `rest` to `total`, which is kept modulo `2 ^ 64`. -/
def readQuantities (text : Text) (total : Nat) (rest : Text) : Except DurationError Nat :=
  if rest.isEmpty then .ok total
  else
    match h : (splitQuantity rest).1.value text with
    | .error e => .error e
    | .ok v =>
      let sum := (total + v) % UInt64.size
      if maxMagnitude < sum then .error (.invalid text)
      else readQuantities text sum (splitQuantity rest).2
termination_by rest.length
decreasing_by exact length_splitQuantity_lt rest (Quantity.unit_ne_nil_of_value h)

/-- Reads a duration. -/
def parse (text : Text) : Except DurationError Duration :=
  let (negative, rest) := Text.splitSign text
  if rest = utf8 "0" then .ok ⟨0⟩
  else if rest.isEmpty then .error (.invalid text)
  else
    match readQuantities text 0 rest with
    | .error e => .error e
    | .ok n =>
      if negative then .ok ⟨-(n : Int)⟩
      else if n = maxMagnitude then .error (.invalid text)
      else .ok ⟨n⟩

end Duration

end Glyph8
