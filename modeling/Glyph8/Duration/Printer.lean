import Glyph8.Text.Numeral

/-!
# Durations and their texts

A duration is a number of nanoseconds. Below a second it is written in one unit, with as many
decimals as it needs; from a second on it is written in hours, minutes and seconds, beginning with
the largest unit it reaches.
-/

namespace Glyph8

/-- A signed length of time. -/
structure Duration where
  nanoseconds : Int
deriving DecidableEq

namespace Duration

/-- The nanoseconds of a second. -/
def second : Nat := 1000000000

/-- A text without the zeros at its end. -/
def trimZeros (t : Text) : Text := (t.reverse.dropWhile (· == 0x30)).reverse

/-- The decimals of `n / 10 ^ places`, with the point before them, if there are any. -/
def decimals (places n : Nat) : Text :=
  let digits := trimZeros (Text.zeroPad places (Text.decimal (n % Nat.pow 10 places)))
  if digits.isEmpty then [] else utf8 "." ++ digits

/-- The number `n / 10 ^ places` in decimal. -/
def fixedPoint (places n : Nat) : Text := Text.decimal (n / Nat.pow 10 places) ++ decimals places n

/-- A number of nanoseconds. -/
def magnitudeText (n : Nat) : Text :=
  if n = 0 then utf8 "0s"
  else if n < 1000 then Text.decimal n ++ utf8 "ns"
  else if n < 1000000 then fixedPoint 3 n ++ utf8 "µs"
  else if n < second then fixedPoint 6 n ++ utf8 "ms"
  else
    let seconds := n / second
    let hours := if 3600 ≤ seconds then Text.decimal (seconds / 3600) ++ utf8 "h" else []
    let minutes := if 60 ≤ seconds then Text.decimal (seconds / 60 % 60) ++ utf8 "m" else []
    hours ++ minutes ++ Text.decimal (seconds % 60) ++ decimals 9 n ++ utf8 "s"

/-- The text of a duration. -/
def text (d : Duration) : Text :=
  let sign := if d.nanoseconds < 0 then utf8 "-" else []
  sign ++ magnitudeText d.nanoseconds.natAbs

end Duration

end Glyph8
