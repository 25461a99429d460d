import Glyph8.Text.Basic

/-!
# Runes

A text read as UTF-8 is a sequence of runes. A byte that belongs to no well-formed character is a
rune of its own, so reading never fails and writing the runes back gives the same bytes.

Well-formed means the shortest spelling of a code point that is no surrogate. The bounds on the
second byte see to that (`secondBounds`). If a character is cut short or goes wrong, only its first
byte is passed over, and reading goes on with the next one.

Decoding is a structural recursion over the bytes: how many bytes still belong to the last rune is
an argument (`decodeFrom`), so every byte is passed over one by one.
-/

namespace Glyph8

/-- One element of a text read as UTF-8: a character, or a byte that is part of none. -/
inductive Rune where
  | scalar (c : Char)
  | stray (b : UInt8)
deriving DecidableEq

namespace Rune

/-- The bytes of a rune. -/
def bytes : Rune → Text
  | scalar c => String.utf8EncodeChar c
  | stray b => [b]

/-- The bytes of a list of runes. -/
def encode (rs : List Rune) : Text := rs.flatMap bytes

/-- Whether a byte can stand inside a character, after its first byte. -/
def isContinuation (b : UInt8) : Bool := 0x80 ≤ b && b ≤ 0xBF

/-- The bounds of a character's second byte, given its first. They are narrower than those of the
later bytes where a shorter spelling, a surrogate or a value above U+10FFFF would arise. -/
def secondBounds (lead : UInt8) : UInt8 × UInt8 :=
  if lead = 0xE0 then (0xA0, 0xBF)
  else if lead = 0xED then (0x80, 0x9F)
  else if lead = 0xF0 then (0x90, 0xBF)
  else if lead = 0xF4 then (0x80, 0x8F)
  else (0x80, 0xBF)

/-- Whether `b` may follow the first byte `lead`. -/
def isSecond (lead b : UInt8) : Bool :=
  (secondBounds lead).1 ≤ b && b ≤ (secondBounds lead).2

/-- The payload of a continuation byte. -/
def payload (b : UInt8) : Nat := b.toNat - 0x80

/-- The rune that begins with the byte `lead`, and how many of the bytes after `lead` it takes. -/
def ofLead (lead : UInt8) (rest : Text) : Rune × Nat :=
  if lead < 0x80 then (scalar (Char.ofNat lead.toNat), 0)
  else if lead < 0xC2 then (stray lead, 0)
  else if lead < 0xE0 then
    match rest with
    | a :: _ =>
      if isContinuation a then
        (scalar (Char.ofNat ((lead.toNat - 0xC0) * 64 + payload a)), 1)
      else (stray lead, 0)
    | [] => (stray lead, 0)
  else if lead < 0xF0 then
    match rest with
    | a :: b :: _ =>
      if isSecond lead a && isContinuation b then
        (scalar (Char.ofNat (((lead.toNat - 0xE0) * 64 + payload a) * 64 + payload b)), 2)
      else (stray lead, 0)
    | _ => (stray lead, 0)
  else if lead < 0xF5 then
    match rest with
    | a :: b :: c :: _ =>
      if isSecond lead a && isContinuation b && isContinuation c then
        (scalar (Char.ofNat
          ((((lead.toNat - 0xF0) * 64 + payload a) * 64 + payload b) * 64 + payload c)), 3)
      else (stray lead, 0)
    | _ => (stray lead, 0)
  else (stray lead, 0)

/-- The runes of a text after its first `skip` bytes. -/
def decodeFrom : Nat → Text → List Rune
  | _, [] => []
  | skip + 1, _ :: rest => decodeFrom skip rest
  | 0, lead :: rest => (ofLead lead rest).1 :: decodeFrom (ofLead lead rest).2 rest

end Rune

namespace Text

/-- The runes of a text. -/
def runes (t : Text) : List Rune := Rune.decodeFrom 0 t

/-- The first rune of a text. -/
def leading? (t : Text) : Option Rune := t.runes.head?

/-- Whether the character `c` occurs in the text. -/
def hasChar (c : Char) (t : Text) : Bool := t.runes.contains (.scalar c)

/-- The characters of a text that is valid UTF-8. -/
def chars? (t : Text) : Option (List Char) :=
  t.runes.mapM fun
    | .scalar c => some c
    | .stray _ => none

/-- The UTF-8 bytes of a list of characters. -/
def ofChars (cs : List Char) : Text := cs.flatMap String.utf8EncodeChar

end Text

end Glyph8
