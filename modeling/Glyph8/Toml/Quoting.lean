import Glyph8.Toml.Basic

/-!
# Strings in TOML

Strings stand between quotation marks, in which a backslash is an escape, or between apostrophes,
in which it is not. Three marks begin a string of several lines. What stands between the marks is
split off first and unescaped afterwards.
-/

namespace Glyph8.Toml

/-- Whether a character ends a line. -/
def isLineEnd (c : Char) : Bool := c == '\n' || c == '\r'

/-- The value of a hexadecimal digit. -/
def hexDigit? (c : Char) : Option Nat :=
  if '0' ≤ c && c ≤ '9' then some (c.toNat - 0x30)
  else if 'a' ≤ c && c ≤ 'f' then some (c.toNat - 0x61 + 10)
  else if 'A' ≤ c && c ≤ 'F' then some (c.toNat - 0x41 + 10)
  else none

/-- The character with the number that hexadecimal digits give. -/
def hexChar? (digits : List Char) : Option Char := do
  let values ← digits.mapM hexDigit?
  let n := values.foldl (fun n d => 16 * n + d) 0
  if h : n.isValidChar then some (Char.ofNatAux n h) else none

/-- Replaces escapes by what they stand for. -/
def unescape : List Char → Option (List Char)
  | [] => some []
  | '\\' :: 'b' :: rest => (unescape rest).map ('\x08' :: ·)
  | '\\' :: 't' :: rest => (unescape rest).map ('\t' :: ·)
  | '\\' :: 'n' :: rest => (unescape rest).map ('\n' :: ·)
  | '\\' :: 'f' :: rest => (unescape rest).map ('\x0c' :: ·)
  | '\\' :: 'r' :: rest => (unescape rest).map ('\r' :: ·)
  | '\\' :: '"' :: rest => (unescape rest).map ('"' :: ·)
  | '\\' :: '\\' :: rest => (unescape rest).map ('\\' :: ·)
  | '\\' :: 'u' :: a :: b :: c :: d :: rest => do
    let x ← hexChar? [a, b, c, d]
    (unescape rest).map (x :: ·)
  | '\\' :: 'U' :: a :: b :: c :: d :: e :: f :: g :: h :: rest => do
    let x ← hexChar? [a, b, c, d, e, f, g, h]
    (unescape rest).map (x :: ·)
  | c :: rest => if c = '\\' then none else (unescape rest).map (c :: ·)

/-- Splits the content of a one-line string from what follows its closing `mark`. -/
def splitLine (mark : Char) (escapes : Bool) : List Char → Option (List Char × List Char)
  | [] => none
  | c :: rest =>
    if c = mark then some ([], rest)
    else if isLineEnd c then none
    else if escapes && c = '\\' then
      match rest with
      | [] => none
      | d :: rest => (splitLine mark escapes rest).map fun (s, r) => (c :: d :: s, r)
    else (splitLine mark escapes rest).map fun (s, r) => (c :: s, r)

/-- Whether the content so far, given in reverse, ends in two marks that a backslash does not
precede. With four more marks there would be six. -/
def endsInTwo (mark : Char) (escapes : Bool) : List Char → Bool
  | a :: b :: rest => a == mark && b == mark && !(escapes && rest.head? == some '\\')
  | _ => false

/-- Splits the content of a string of several lines from what follows its closing marks. Up to two
more marks may stand right before those. `done` is the content so far, in reverse. -/
def splitBlock (mark : Char) (escapes : Bool) (done : List Char) :
    List Char → Option (List Char × List Char)
  | [] => none
  | c :: rest =>
    if c = mark then
      match rest with
      | d :: e :: after =>
        if d = mark ∧ e = mark then
          if after.head? = some mark then
            if endsInTwo mark escapes done then none
            else splitBlock mark escapes (c :: done) rest
          else some (done.reverse, after)
        else splitBlock mark escapes (c :: done) rest
      | _ => none
    else if escapes && c = '\\' then
      match rest with
      | [] => none
      | d :: rest => splitBlock mark escapes (d :: c :: done) rest
    else splitBlock mark escapes (c :: done) rest

/-- The content of a string of several lines without the line end right after its marks. -/
def dropFirstLineEnd : List Char → List Char
  | '\n' :: rest => rest
  | '\r' :: '\n' :: rest => rest
  | cs => cs

/-- Whether a character is a blank or ends a line. -/
def isSpacing (c : Char) : Bool := c == ' ' || c == '\t' || isLineEnd c

/-- Removes every backslash at the end of a line together with the blanks and line ends after
it. While `skipping` is set such blanks are being removed. -/
def joinLines (skipping : Bool) : List Char → List Char
  | [] => []
  | '\\' :: '\\' :: rest => '\\' :: '\\' :: joinLines false rest
  | c :: rest =>
    if skipping && isSpacing c then joinLines true rest
    else if c = '\\' ∧ (rest.takeWhile isSpacing).contains '\n' then joinLines true rest
    else c :: joinLines false rest

/-- A string with escapes, after its first quotation mark. -/
def basicString (cs : List Char) : Option (Text × List Char) := do
  let (content, rest) ← splitLine '"' true cs
  let content ← unescape content
  return (Text.ofChars content, rest)

/-- A string without escapes, after its first apostrophe. -/
def rawString (cs : List Char) : Option (Text × List Char) := do
  let (content, rest) ← splitLine '\x27' false cs
  return (Text.ofChars content, rest)

/-- A string of several lines with escapes, after its first marks. -/
def basicBlock (cs : List Char) : Option (Text × List Char) := do
  let (content, rest) ← splitBlock '"' true [] cs
  let content ← unescape (joinLines false (dropFirstLineEnd content))
  return (Text.ofChars content, rest)

/-- A string of several lines without escapes, after its first marks. -/
def rawBlock (cs : List Char) : Option (Text × List Char) := do
  let (content, rest) ← splitBlock '\x27' false [] cs
  return (Text.ofChars (dropFirstLineEnd content), rest)

end Glyph8.Toml
