import Glyph8.Toml.Quoting

/-!
# Numbers in TOML

Integers are decimal, or hexadecimal, octal or binary after a base mark, and fit 64 bits. Decimal
numbers may have a fraction and an exponent. Underscores may stand between digits.
-/

namespace Glyph8.Toml

/-- Whether a character is a decimal digit. -/
def isDecimal (c : Char) : Bool := '0' ≤ c && c ≤ '9'

/-- Whether a character is a hexadecimal digit. -/
def isHexadecimal (c : Char) : Bool := (hexDigit? c).isSome

/-- Whether every underscore stands after a digit, and the last character is a digit.
`afterDigit` says whether the character before is one. -/
def underscoresSeparate (afterDigit : Bool) : List Char → Bool
  | [] => afterDigit
  | c :: rest => (c != '_' || afterDigit) && underscoresSeparate (isHexadecimal c) rest

/-- Whether a number has a zero before its other digits. -/
def hasLeadingZero : List Char → Bool
  | '0' :: c :: _ => c != 'b' && c != 'o' && c != 'x'
  | '-' :: '0' :: _ :: _ => true
  | '+' :: '0' :: _ :: _ => true
  | _ => false

/-- The value of digits in a base; underscores do not count. -/
def digitsIn (base : Nat) (cs : List Char) : Nat :=
  (cs.filter (· != '_')).foldl (fun n c => base * n + (hexDigit? c).getD 0) 0

/-- The value of an integer, without regard to its size. -/
def integerValue : List Char → Int
  | '-' :: cs => -(digitsIn 10 cs : Int)
  | '+' :: cs => digitsIn 10 cs
  | '0' :: 'x' :: cs => digitsIn 16 cs
  | '0' :: 'o' :: cs => digitsIn 8 cs
  | '0' :: 'b' :: cs => digitsIn 2 cs
  | cs => digitsIn 10 cs

/-- The value of the characters of an integer. -/
def integer? (cs : List Char) : Option Literal :=
  let n := integerValue cs
  if underscoresSeparate false cs && !hasLeadingZero cs && Text.minInt64 ≤ n && n ≤ Text.maxInt64
  then some (.integer n) else none

/-- The digits at the beginning, if there are any, and the rest. -/
def someDigits (cs : List Char) : Option (List Char × List Char) :=
  let digits := cs.takeWhile isDecimal
  if digits.isEmpty then none else some (digits, cs.dropWhile isDecimal)

/-- The characters after a sign, if there is one. -/
def dropSign : List Char → List Char
  | '-' :: cs => cs
  | '+' :: cs => cs
  | cs => cs

/-- The size of an exponent. Once it has reached ten thousand, further digits do not count. -/
def exponentSize (digits : List Char) : Nat :=
  digits.foldl (fun e c => if e < 10000 then 10 * e + (hexDigit? c).getD 0 else e) 0

/-- An exponent as its value. -/
def exponent? (cs : List Char) : Option Int := do
  let (digits, rest) ← someDigits (dropSign cs)
  if rest.isEmpty then
    let n : Int := exponentSize digits
    return if cs.head? = some '-' then -n else n
  else none

/-- A decimal number as `m` and `e` for `m * 10 ^ e`, without its sign. -/
structure Decimal where
  mantissa : Nat
  exponent : Int

/-- Reads the exponent of a number, if there is one. -/
def withExponent (whole fraction : List Char) : List Char → Option Decimal
  | [] => some ⟨digitsIn 10 (whole ++ fraction), -(fraction.length : Int)⟩
  | c :: rest =>
    if c = 'e' ∨ c = 'E' then do
      let e ← exponent? rest
      return ⟨digitsIn 10 (whole ++ fraction), e - fraction.length⟩
    else none

/-- Reads a decimal number. -/
def decimal? (cs : List Char) : Option Decimal := do
  let (whole, rest) ← someDigits (dropSign cs)
  match rest with
  | '.' :: rest =>
    let (fraction, rest) ← someDigits rest
    withExponent whole fraction rest
  | rest => withExponent whole [] rest

/-- The least number that is too large to be told from infinity in double precision: it lies
halfway between the largest finite number and the next power of two. -/
def overflowThreshold : Nat := Nat.pow 2 1024 - Nat.pow 2 970

/-- Whether a decimal number is too large for double precision. Numbers with far too many or far too
few places are told by the number of their places alone. -/
def Decimal.overflows (d : Decimal) : Bool :=
  if d.mantissa = 0 then false
  else
    let places := ((Nat.toDigits 10 d.mantissa).length : Int) + d.exponent
    if 310 < places then true
    else if places < 300 then false
    else if 0 ≤ d.exponent then overflowThreshold ≤ d.mantissa * Nat.pow 10 d.exponent.toNat
    else overflowThreshold * Nat.pow 10 (-d.exponent).toNat ≤ d.mantissa

/-- The parts of a number between its point and its exponent mark. -/
def numberParts (cs : List Char) : List (List Char) :=
  (cs.splitOnP fun c => c == '.' || c == 'e' || c == 'E').filter (!·.isEmpty)

/-- The characters of a number with a fraction or an exponent. -/
def real? (cs : List Char) : Option Literal := do
  let parts := numberParts cs
  if parts.all (underscoresSeparate false) && !hasLeadingZero (parts.headD []) then
    let d ← decimal? (cs.filter (· != '_'))
    if d.overflows then none else some .real
  else none

end Glyph8.Toml
