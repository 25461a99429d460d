import Glyph8.Toml.Moment

/-!
# Reading TOML

A document is valid UTF-8 without control characters, except for tabs and line ends. It is read
statement by statement; one malformed statement makes the whole document malformed.

Reading is done on characters. Each function takes what is to be read and returns what it has read
with the rest, or nothing if it is malformed; where the fault is, is not told. A byte order mark at
the beginning is dropped, whatever it says.
-/

namespace Glyph8.Toml

/-! ## Characters -/

/-- Whether a character is a blank within a line. -/
def isGap (c : Char) : Bool := c == ' ' || c == '\t'

/-- Whether a character may not occur in a document at all. -/
def isForbidden (c : Char) : Bool := (c.toNat < 0x20 && !isGap c && !isLineEnd c) || c.toNat == 0x7F

/-- Whether no forbidden character occurs, and every carriage return ends a line. -/
def isClean : List Char → Bool
  | [] => true
  | c :: rest =>
    !isForbidden c && (c != '\r' || rest.head? == some '\n') && isClean rest

/-- A text without the byte order mark at its beginning. -/
def dropOrderMark : Text → Text
  | 0xFF :: 0xFE :: rest => rest
  | 0xFE :: 0xFF :: rest => rest
  | 0xEF :: 0xBB :: 0xBF :: rest => rest
  | t => t

/-- The characters of a document. -/
def documentChars? (t : Text) : Option (List Char) := do
  let cs ← (dropOrderMark t).chars?
  if isClean cs then some cs else none

/-- What follows the blanks at the beginning. -/
def skipGaps (cs : List Char) : List Char := cs.dropWhile isGap

/-- What follows the blanks, line ends and comments at the beginning. -/
def skipLines (inComment : Bool) : List Char → List Char
  | [] => []
  | c :: rest =>
    if isLineEnd c then skipLines false rest
    else if inComment then skipLines true rest
    else if isGap c then skipLines false rest
    else if c = '#' then skipLines true rest
    else c :: rest

/-! ## Keys -/

/-- One part of a key. -/
def keyPart : List Char → Option (Text × List Char)
  | '"' :: rest => basicString rest
  | '\x27' :: rest => rawString rest
  | cs =>
    let name := cs.takeWhile isBareChar
    if name.isEmpty then none else some (Text.ofChars name, cs.dropWhile isBareChar)

/-- The parts of a key with dots and blanks between them. Blanks after the last part are skipped.
`fuel` bounds the number of parts. -/
def keyPath : Nat → List Char → Option (KeyPath × List Char)
  | 0, _ => none
  | fuel + 1, cs => do
    let (part, rest) ← keyPart (skipGaps cs)
    match skipGaps rest with
    | '.' :: rest =>
      let (parts, rest) ← keyPath fuel rest
      return (part :: parts, rest)
    | rest => return ([part], rest)

/-! ## Values -/

/-- Whether a character begins a fraction or an exponent. -/
def isRealMark (c : Char) : Bool := c == '.' || c == 'e' || c == 'E'

/-- Whether a character can stand in a number with a fraction or an exponent. -/
def isRealChar (c : Char) : Bool := isDecimal c || c == '_' || c == '-' || c == '+' || isRealMark c

/-- Whether a character can stand in a moment. -/
def isMomentChar (c : Char) : Bool :=
  isDecimal c || c == '-' || c == ':' || c == 'T' || c == 't' || c == ' ' || c == '.' || c == 'Z' ||
    c == 'z' || c == '+'

/-- The characters that satisfy `p` at the beginning, read by `read`, and the rest. -/
def token (p : Char → Bool) (read : List Char → Option Literal) (cs : List Char) :
    Option (Literal × List Char) :=
  (read (cs.takeWhile p)).map fun value => (value, cs.dropWhile p)

/-- A decimal number with the sign `sign` before it. -/
def decimalNumber (sign : List Char) (cs : List Char) : Option (Literal × List Char) :=
  let isPlain (c : Char) := isDecimal c || c == '_'
  if ((cs.dropWhile isPlain).head?.map isRealMark).getD false then
    token isRealChar (fun digits => real? (sign ++ digits)) cs
  else token isPlain (fun digits => integer? (sign ++ digits)) cs

/-- An integer after the base mark `mark`. -/
def basedNumber (mark : Char) (isBaseDigit : Char → Bool) (cs : List Char) :
    Option (Literal × List Char) :=
  if (cs.head?.map isBaseDigit).getD false then
    token (fun c => isBaseDigit c || c == '_') (fun digits => integer? ('0' :: mark :: digits)) cs
  else none

/-- A number or a moment that begins with a digit. -/
def numberOrMoment (cs : List Char) : Option (Literal × List Char) :=
  let after := cs.dropWhile isDecimal
  let loneZero := cs.takeWhile isDecimal == ['0']
  match after with
  | [] => decimalNumber [] cs
  | c :: rest =>
    if loneZero then
      if c = 'x' then basedNumber 'x' isHexadecimal rest
      else if c = 'o' then basedNumber 'o' (fun d => '0' ≤ d && d ≤ '7') rest
      else if c = 'b' then basedNumber 'b' (fun d => d == '0' || d == '1') rest
      else decimalNumber [] cs
    else if c = '-' ∨ c = ':' then token isMomentChar Moment.literal? cs
    else decimalNumber [] cs

/-- A number after its sign. -/
def signedNumber (sign : Char) : List Char → Option (Literal × List Char)
  | 'i' :: 'n' :: 'f' :: rest => some (.real, rest)
  | 'n' :: 'a' :: 'n' :: rest => some (.real, rest)
  | '0' :: 'x' :: _ => none
  | '0' :: 'o' :: _ => none
  | '0' :: 'b' :: _ => none
  | c :: rest => if isDecimal c then decimalNumber [sign] (c :: rest) else none
  | [] => none

/-- A string as a value. -/
def textValue (read : Option (Text × List Char)) : Option (Literal × List Char) :=
  read.map fun (t, rest) => (.text t, rest)

/-- A value that is neither an array nor a table. -/
def scalar : List Char → Option (Literal × List Char)
  | '"' :: '"' :: '"' :: rest => textValue (basicBlock rest)
  | '"' :: rest => textValue (basicString rest)
  | '\x27' :: '\x27' :: '\x27' :: rest => textValue (rawBlock rest)
  | '\x27' :: rest => textValue (rawString rest)
  | 't' :: 'r' :: 'u' :: 'e' :: rest => some (.boolean true, rest)
  | 'f' :: 'a' :: 'l' :: 's' :: 'e' :: rest => some (.boolean false, rest)
  | 'i' :: 'n' :: 'f' :: rest => some (.real, rest)
  | 'n' :: 'a' :: 'n' :: rest => some (.real, rest)
  | '-' :: rest => signedNumber '-' rest
  | '+' :: rest => signedNumber '+' rest
  | c :: rest => if isDecimal c then numberOrMoment (c :: rest) else none
  | [] => none

mutual

/-- A value. `fuel` bounds the number of values, items and entries read. -/
def value : Nat → List Char → Option (Literal × List Char)
  | 0, _ => none
  | fuel + 1, cs =>
    match skipGaps cs with
    | '[' :: rest => do
      let (items, rest) ← arrayItems fuel rest
      return (.array items, rest)
    | '\x7b' :: rest =>
      match skipGaps rest with
      | '\x7d' :: rest => some (.table [], rest)
      | rest => do
        let (entries, rest) ← tableEntries fuel rest
        return (.table entries, rest)
    | cs => scalar cs

/-- The items of an array, up to its closing bracket. Line ends and comments may stand anywhere
between them, and a comma may follow the last one. -/
def arrayItems : Nat → List Char → Option (List Literal × List Char)
  | 0, _ => none
  | fuel + 1, cs =>
    match skipLines false cs with
    | ']' :: rest => some ([], rest)
    | cs => do
      let (item, rest) ← value fuel cs
      match skipLines false rest with
      | ']' :: rest => return ([item], rest)
      | ',' :: rest =>
        let (items, rest) ← arrayItems fuel rest
        return (item :: items, rest)
      | _ => none

/-- The entries of a table on one line, up to its closing brace. -/
def tableEntries : Nat → List Char → Option (List (KeyPath × Literal) × List Char)
  | 0, _ => none
  | fuel + 1, cs => do
    let (path, rest) ← keyPath cs.length cs
    match rest with
    | '=' :: rest =>
      let (v, rest) ← value fuel rest
      match skipGaps rest with
      | '\x7d' :: rest => return ([(path, v)], rest)
      | ',' :: rest =>
        let (entries, rest) ← tableEntries fuel rest
        return ((path, v) :: entries, rest)
      | _ => none
    | _ => none

end

/-! ## Statements -/

/-- A table header, after its first bracket. -/
def header : List Char → Option (Statement × List Char)
  | '[' :: rest => do
    let (path, rest) ← keyPath rest.length rest
    match rest with
    | ']' :: ']' :: rest => return (.arrayHeader path, rest)
    | _ => none
  | rest => do
    let (path, rest) ← keyPath rest.length rest
    match rest with
    | ']' :: rest => return (.header path, rest)
    | _ => none

/-- An assignment. -/
def assignment (cs : List Char) : Option (Statement × List Char) := do
  let (path, rest) ← keyPath cs.length cs
  match rest with
  | '=' :: rest =>
    let (v, rest) ← value (3 * rest.length + 3) rest
    return (.assign path v, rest)
  | _ => none

/-- What follows a statement on its line, which has to be blank or a comment. -/
def endOfLine (cs : List Char) : Option (List Char) :=
  match skipGaps cs with
  | [] => some []
  | c :: rest => if isLineEnd c || c == '#' then some (c :: rest) else none

/-- The statements of a document. `fuel` bounds their number. -/
def statements : Nat → List Char → Option (List Statement)
  | 0, _ => none
  | fuel + 1, cs =>
    match skipLines false cs with
    | [] => some []
    | c :: rest => do
      let (s, rest) ← if c = '[' then header rest else assignment (c :: rest)
      let rest ← endOfLine rest
      let more ← statements fuel rest
      return s :: more

/-- The statements of a document text. -/
def parse (t : Text) : Option (List Statement) := do
  let cs ← documentChars? t
  statements (cs.length + 1) cs

end Glyph8.Toml
