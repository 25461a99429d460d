import Glyph8.Text.Numeral

/-!
# Integers with a base mark

An integer may be written in binary, octal, decimal or hexadecimal. Digits after `0b`, `0o` or `0x`
are in that base, other digits after a leading zero are octal, and all else is decimal. Underscores
may stand between digits and after the base mark. A number is read from the left, and nothing after
the digit at which it grows too large is looked at.
-/

namespace Glyph8

/-- Why a text is not a 64-bit integer. -/
inductive NumeralError where
  | malformed
  | outOfRange
deriving DecidableEq

namespace Text

/-- The byte that may separate digits. -/
def underscore : UInt8 := 0x5F

/-- A capital letter as its lower-case letter, any other byte as it is. -/
def small (b : UInt8) : UInt8 :=
  if 0x41 ≤ b && b ≤ 0x5A then b + 0x20 else b

/-- The value of a byte as a digit: letters continue after 9. -/
def letterDigit? (b : UInt8) : Option Nat :=
  if isDigit b then some (digitValue b)
  else if 0x61 ≤ small b && small b ≤ 0x7A then some ((small b).toNat - 0x61 + 10)
  else none

/-- The base that a letter after a leading zero stands for. -/
def baseMark? (b : UInt8) : Option Nat :=
  if small b = 0x62 then some 2
  else if small b = 0x6F then some 8
  else if small b = 0x78 then some 16
  else none

/-- An unsigned number split into its base, whether something that counts as a digit stands before
the rest, and the rest. -/
def splitBase : Text → Nat × Bool × Text
  | 0x30 :: mark :: digit :: rest =>
    match baseMark? mark with
    | some base => (base, true, digit :: rest)
    | none => (8, true, mark :: digit :: rest)
  | 0x30 :: rest => (8, true, rest)
  | t => (10, false, t)

/-- The value of digits in a base after digits of value `n`. -/
def readDigits (base n : Nat) : Text → Except NumeralError Nat
  | [] => .ok n
  | b :: rest =>
    if b = underscore then readDigits base n rest
    else
      match letterDigit? b with
      | none => .error .malformed
      | some d =>
        if base ≤ d then .error .malformed
        else if UInt64.size ≤ n * base + d then .error .outOfRange
        else readDigits base (n * base + d) rest

/-- Whether every underscore stands between digits. `afterDigit` says whether a digit stands right
before the text. -/
def underscoresInside (afterDigit : Bool) : Text → Bool
  | [] => true
  | b :: rest =>
    if b = underscore then afterDigit && !rest.isEmpty && underscoresInside false rest
    else underscoresInside true rest

/-- The value of an unsigned number. -/
def basedNatural (t : Text) : Except NumeralError Nat :=
  if t.isEmpty then .error .malformed
  else
    let (base, afterMark, digits) := splitBase t
    match readDigits base 0 digits with
    | .error e => .error e
    | .ok n => if underscoresInside afterMark digits then .ok n else .error .malformed

/-- The value of a signed number. -/
def basedInteger (t : Text) : Except NumeralError Int :=
  let (negative, digits) := splitSign t
  match basedNatural digits with
  | .error e => .error e
  | .ok n =>
    let value : Int := if negative then -(n : Int) else n
    if minInt64 ≤ value && value ≤ maxInt64 then .ok value else .error .outOfRange

end Text

end Glyph8
