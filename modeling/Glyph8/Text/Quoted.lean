import Glyph8.Text.Printable
import Glyph8.Text.Numeral

/-!
# Quoted texts

A text is quoted for a message so that every byte of it can be told: printable characters stand
for themselves and everything else is escaped.
-/

namespace Glyph8

/-- The escapes that are a backslash and a letter. -/
def letterEscape? (c : Char) : Option Text :=
  match c.toNat with
  | 0x07 => some (utf8 "\\a")
  | 0x08 => some (utf8 "\\b")
  | 0x09 => some (utf8 "\\t")
  | 0x0A => some (utf8 "\\n")
  | 0x0B => some (utf8 "\\v")
  | 0x0C => some (utf8 "\\f")
  | 0x0D => some (utf8 "\\r")
  | _ => none

/-- A character inside quotation marks `mark`. -/
def escapeChar (mark c : Char) : Text :=
  if c = mark ∨ c = '\\' then utf8 "\\" ++ String.utf8EncodeChar c
  else if isPrintable c then String.utf8EncodeChar c
  else match letterEscape? c with
    | some e => e
    | none =>
      let n := c.toNat
      if n < 0x20 ∨ n = 0x7F then utf8 "\\x" ++ Text.hex 2 n
      else if n < 0x10000 then utf8 "\\u" ++ Text.hex 4 n
      else utf8 "\\U" ++ Text.hex 8 n

/-- A rune inside quotation marks `mark`. -/
def Rune.escape (mark : Char) : Rune → Text
  | .scalar c => escapeChar mark c
  | .stray b => utf8 "\\x" ++ Text.hex 2 b.toNat

namespace Text

/-- A text between double quotation marks. -/
def quote (t : Text) : Text :=
  utf8 "\"" ++ t.runes.flatMap (Rune.escape '"') ++ utf8 "\""

/-- A character between single quotation marks. -/
def quoteChar (c : Char) : Text :=
  utf8 "'" ++ escapeChar '\x27' c ++ utf8 "'"

end Text

end Glyph8
