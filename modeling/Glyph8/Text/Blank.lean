import Glyph8.Text.Rune

/-!
# Blanks, words and trimming

Words of a text are its longest runs of runes that are not blank. A byte that belongs to no
character is never blank.

Blanks are the spaces of Unicode and not only those of ASCII, so words cannot be found byte by byte:
a byte of some character may look like a blank, and some blanks have several bytes. The text is
split as runes, and each word is turned back into bytes, which are the ones that it had.
-/

namespace Glyph8

/-- The blank characters: the ASCII ones, next line, no-break space and the Unicode spaces and
separators. Zero-width characters are not blank. -/
def isBlankChar (c : Char) : Bool :=
  let n := c.toNat
  (0x09 ≤ n && n ≤ 0x0D) || n == 0x20 || n == 0x85 || n == 0xA0 || n == 0x1680 ||
    (0x2000 ≤ n && n ≤ 0x200A) || n == 0x2028 || n == 0x2029 || n == 0x202F || n == 0x205F ||
    n == 0x3000

/-- Whether a rune is a blank character. -/
def Rune.isBlank : Rune → Bool
  | .scalar c => isBlankChar c
  | .stray _ => false

namespace Text

/-- The words of a text, in order. -/
def words (t : Text) : List Text :=
  ((t.runes.splitOnP Rune.isBlank).filter (!·.isEmpty)).map Rune.encode

/-- Runes without the blanks at their beginning and end. -/
def trimRunes (rs : List Rune) : List Rune :=
  ((rs.dropWhile Rune.isBlank).reverse.dropWhile Rune.isBlank).reverse

/-- A text without the blanks at its beginning and end. -/
def trim (t : Text) : Text := Rune.encode (trimRunes t.runes)

end Text

end Glyph8
