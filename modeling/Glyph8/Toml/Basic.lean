import Glyph8.Text.Numeral
import Glyph8.Text.Rune

/-!
# TOML statements

A TOML document is a list of statements: table headers and assignments. Values keep what a setting
can take and what can be wrong with it; of numbers with a fraction and of the items of an array only
the kind is kept, of a moment in time its offset.

Literals are what is written, before it is known which table it goes to. They are nested, in arrays
and in tables on one line, so functions on them come in groups: for a literal, for the items of an
array and for the entries of a table. Equality is one of these, and it can be decided.
-/

namespace Glyph8.Toml

/-- The parts of a dotted key. -/
abbrev KeyPath := List Text

/-- A value as it is written. -/
inductive Literal where
  | text (t : Text)
  | integer (n : Int)
  | boolean (b : Bool)
  | real
  /-- A moment, by its offset from universal time in minutes. -/
  | moment (offset : Int)
  | array (items : List Literal)
  | table (entries : List (KeyPath × Literal))

namespace Literal

mutual

/-- Whether two literals are the same. -/
def same : Literal → Literal → Bool
  | .text s, .text t => s == t
  | .integer m, .integer n => m == n
  | .boolean b, .boolean c => b == c
  | .real, .real => true
  | .moment m, .moment n => m == n
  | .array xs, .array ys => sameItems xs ys
  | .table es, .table fs => sameEntries es fs
  | _, _ => false

/-- Whether two arrays have the same items. -/
def sameItems : List Literal → List Literal → Bool
  | [], [] => true
  | x :: xs, y :: ys => x.same y && sameItems xs ys
  | _, _ => false

/-- Whether two inline tables have the same entries. -/
def sameEntries : List (KeyPath × Literal) → List (KeyPath × Literal) → Bool
  | [], [] => true
  | (key, x) :: es, (key', y) :: fs => key == key' && x.same y && sameEntries es fs
  | _, _ => false

end

mutual

/-- Literals are compared by their structure. -/
theorem same_iff : ∀ a b : Literal, a.same b = true ↔ a = b
  | .text _, b | .integer _, b | .boolean _, b | .real, b | .moment _, b => by
    cases b <;> simp [same]
  | .array xs, b => by cases b <;> simp [same, sameItems_iff xs]
  | .table es, b => by cases b <;> simp [same, sameEntries_iff es]

theorem sameItems_iff : ∀ xs ys : List Literal, sameItems xs ys = true ↔ xs = ys
  | [], ys => by cases ys <;> simp [sameItems]
  | x :: xs, ys => by cases ys <;> simp [sameItems, same_iff x, sameItems_iff xs]

theorem sameEntries_iff :
    ∀ es fs : List (KeyPath × Literal), sameEntries es fs = true ↔ es = fs
  | [], fs => by cases fs <;> simp [sameEntries]
  | (key, x) :: es, fs => by
    cases fs <;> simp [sameEntries, same_iff x, sameEntries_iff es, Prod.ext_iff]

end

instance : DecidableEq Literal := fun a b => decidable_of_iff _ (same_iff a b)

end Literal

/-- One line of a document. -/
inductive Statement where
  | header (path : KeyPath)
  | arrayHeader (path : KeyPath)
  | assign (path : KeyPath) (value : Literal)
deriving DecidableEq

/-- Whether a character can stand in a key without quotation marks. -/
def isBareChar (c : Char) : Bool :=
  ('A' ≤ c && c ≤ 'Z') || ('a' ≤ c && c ≤ 'z') || ('0' ≤ c && c ≤ '9') || c == '_' || c == '-'

namespace KeyPath

/-- A byte of a key inside quotation marks. -/
def escape (b : UInt8) : Text :=
  if b = 0x22 ∨ b = 0x5C then [0x5C, b]
  else if b = 0x08 then utf8 "\\b"
  else if b = 0x09 then utf8 "\\t"
  else if b = 0x0A then utf8 "\\n"
  else if b = 0x0C then utf8 "\\f"
  else if b = 0x0D then utf8 "\\r"
  else if b < 0x20 ∨ b = 0x7F then utf8 "\\u" ++ Text.hex 4 b.toNat
  else [b]

/-- One part of a key, in quotation marks if it needs them. -/
def partText (part : Text) : Text :=
  let bare := part.runes.all fun
    | .scalar c => isBareChar c
    | .stray _ => false
  if bare && !part.isEmpty then part else utf8 "\"" ++ part.flatMap escape ++ utf8 "\""

/-- The text of a key: its parts with dots between them. -/
def text (path : KeyPath) : Text := (utf8 ".").intercalate (path.map partText)

end KeyPath

end Glyph8.Toml
