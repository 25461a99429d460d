import Glyph8.Text.Basic

/-!
# Numerals

Writing numbers in decimal, binary and hexadecimal, and reading decimal numbers. Reading a signed
number does not fail for being too large: such a number is still a number, and it is taken to the
nearer end of the 64-bit range.

There are three ways to read a number: digits only (`natural?`), digits with a value of at most 255
(`byte?`), and an optional sign and digits (`integer?`). The last one stops at the digit at which
the number no longer fits 64 bits, and does not look at what follows. So a text that begins with a
very large number is taken for a number, whatever it goes on with.
-/

namespace Glyph8

namespace Text

/-- The byte of an ASCII character. -/
def asciiByte (c : Char) : UInt8 := c.toNat.toUInt8

/-- A number in the given base, with lower-case digits. -/
def numeral (base n : Nat) : Text := (Nat.toDigits base n).map asciiByte

/-- A number in decimal. -/
def decimal (n : Nat) : Text := numeral 10 n

/-- An integer in decimal, with a sign if it is negative. -/
def signedDecimal : Int → Text
  | .ofNat n => decimal n
  | .negSucc n => utf8 "-" ++ decimal (n + 1)

/-- An integer in decimal, always with a sign. -/
def plusDecimal : Int → Text
  | .ofNat n => utf8 "+" ++ decimal n
  | .negSucc n => utf8 "-" ++ decimal (n + 1)

/-- A text filled up with zeros on the left. -/
def zeroPad (width : Nat) (t : Text) : Text :=
  List.replicate (width - t.length) 0x30 ++ t

/-- A number in hexadecimal with at least `width` lower-case digits. -/
def hex (width n : Nat) : Text := zeroPad width (numeral 16 n)

/-- A lower-case letter as its capital, any other byte as it is. -/
def capital (b : UInt8) : UInt8 :=
  if 0x61 ≤ b && b ≤ 0x7A then b - 0x20 else b

/-- A number in hexadecimal with at least `width` capital digits. -/
def capitalHex (width n : Nat) : Text := (hex width n).map capital

/-- Two hexadecimal digits for each byte. -/
def hexBytes (t : Text) : Text := t.flatMap fun b => hex 2 b.toNat

/-- A byte as eight binary digits. -/
def binary8 (b : UInt8) : Text := zeroPad 8 (numeral 2 b.toNat)

/-- Whether a byte is an ASCII digit. -/
def isDigit (b : UInt8) : Bool := 0x30 ≤ b && b ≤ 0x39

/-- The value of a digit. -/
def digitValue (b : UInt8) : Nat := b.toNat - 0x30

/-- The value of a list of digits. -/
def digitsValue (t : Text) : Nat := t.foldl (fun n b => 10 * n + digitValue b) 0

/-- The value of a text that is one or more digits. -/
def natural? (t : Text) : Option Nat :=
  if !t.isEmpty && t.all isDigit then some (digitsValue t) else none

/-- The value of a text that is one or more digits, if it is at most 255. -/
def byte? (t : Text) : Option UInt8 :=
  match natural? t with
  | some n => if n ≤ 255 then some n.toUInt8 else none
  | none => none

/-- A text split into its sign, if it begins with one, and the rest. The first part says whether
the sign is a minus. -/
def splitSign : Text → Bool × Text
  | [] => (false, [])
  | b :: rest =>
    if b = 0x2D then (true, rest) else if b = 0x2B then (false, rest) else (false, b :: rest)

/-- The largest 64-bit integer. -/
def maxInt64 : Int := 9223372036854775807

/-- The smallest 64-bit integer. -/
def minInt64 : Int := -9223372036854775808

/-- An integer taken to the nearer end of the 64-bit range if it lies outside. -/
def clamp64 (n : Int) : Int := max minInt64 (min maxInt64 n)

/-- Whether a text is a digit string, or begins with digits whose value exceeds 64 bits. A number
is read from the left, and nothing after the digit at which it grows too large is looked at. -/
def readsAsDigits (t : Text) : Bool :=
  (!t.isEmpty && t.all isDigit) || UInt64.size ≤ digitsValue (t.takeWhile isDigit)

/-- The value of a signed decimal number: an optional sign and digits. -/
def integer? (t : Text) : Option Int :=
  let (negative, digits) := splitSign t
  if readsAsDigits digits then
    let n : Int := digitsValue (digits.takeWhile isDigit)
    some (clamp64 (if negative then -n else n))
  else none

end Text

end Glyph8
