import Glyph8.Toml.Number

/-!
# Moments in TOML

A moment is a date, a time, or both, and both may have an offset from universal time. The letters in
it may be small, and a blank may stand between date and time.
-/

namespace Glyph8.Toml.Moment

/-- Reads a number of exactly `n` digits. -/
def digits (n : Nat) (cs : List Char) : Option (Nat × List Char) :=
  if (cs.take n).length = n && (cs.take n).all isDecimal then
    some (digitsIn 10 (cs.take n), cs.drop n)
  else none

/-- Reads the character `c`. -/
def char (c : Char) : List Char → Option (List Char)
  | d :: rest => if d = c then some rest else none
  | [] => none

/-- Whether a year has a leap day. -/
def isLeap (year : Nat) : Bool := year % 4 == 0 && (year % 100 != 0 || year % 400 == 0)

/-- How many days a month has. -/
def daysIn (year month : Nat) : Nat :=
  if month = 2 then (if isLeap year then 29 else 28)
  else if month = 4 ∨ month = 6 ∨ month = 9 ∨ month = 11 then 30
  else 31

/-- Reads a date. -/
def date (cs : List Char) : Option (List Char) := do
  let (year, cs) ← digits 4 cs
  let cs ← char '-' cs
  let (month, cs) ← digits 2 cs
  let cs ← char '-' cs
  let (day, cs) ← digits 2 cs
  if 1 ≤ month && month ≤ 12 && 1 ≤ day && day ≤ daysIn year month then some cs else none

/-- Skips the fraction of a second, if there is one. -/
def fraction (cs : List Char) : List Char :=
  match cs with
  | '.' :: rest =>
    match someDigits rest with
    | some (_, rest) => rest
    | none => cs
  | _ => cs

/-- Reads a time of day. -/
def time (cs : List Char) : Option (List Char) := do
  let (hour, cs) ← digits 2 cs
  let cs ← char ':' cs
  let (minute, cs) ← digits 2 cs
  let cs ← char ':' cs
  let (second, cs) ← digits 2 cs
  if hour < 24 && minute < 60 && second < 60 then some (fraction cs) else none

/-- The offset from universal time in minutes. Full days and hours are allowed. -/
def offset? : List Char → Option Int
  | [] => none
  | c :: cs =>
    if c = 'Z' then (if cs.isEmpty then some 0 else none)
    else if c = '+' ∨ c = '-' then do
      let (hours, cs) ← digits 2 cs
      let cs ← char ':' cs
      let (minutes, cs) ← digits 2 cs
      let size : Int := 60 * hours + minutes
      if hours ≤ 24 && minutes ≤ 60 && cs.isEmpty then some (if c = '-' then -size else size)
      else none
    else none

/-- The offset in what follows a date: nothing, or a time that may have an offset. -/
def afterDate (cs : List Char) : Option Int :=
  if cs.isEmpty then some 0
  else do
    let rest ← (char 'T' cs).bind time
    if rest.isEmpty then some 0 else offset? rest

/-- Capital letters for small ones, and a letter for the blank between date and time. -/
def normal (c : Char) : Char :=
  if c = 'z' then 'Z' else if c = 't' ∨ c = ' ' then 'T' else c

/-- The characters of a moment. Blanks at its end do not belong to it. -/
def literal? (cs : List Char) : Option Literal :=
  let cs := ((cs.reverse.dropWhile (· == ' ')).reverse).map normal
  match date cs with
  | some rest => (afterDate rest).map .moment
  | none => if time cs == some [] then some (.moment 0) else none

end Glyph8.Toml.Moment
