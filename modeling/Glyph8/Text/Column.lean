import Glyph8.Text.Rune

/-!
# Columns

Tables are set in columns whose width is counted in runes. A text that is wider than its column is
never cut.
-/

namespace Glyph8.Text

/-- Spaces that bring a text to the given width. -/
def filler (width : Nat) (t : Text) : Text :=
  List.replicate (width - t.runes.length) space

/-- A text at the left of a column. -/
def alignLeft (width : Nat) (t : Text) : Text := t ++ filler width t

/-- A text at the right of a column. -/
def alignRight (width : Nat) (t : Text) : Text := filler width t ++ t

end Glyph8.Text
