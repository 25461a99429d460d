import Glyph8.Text.Basic

/-!
# Sinks

A sink takes texts one write at a time. It may have room for only so many bytes: a write that does
not fit is refused as a whole and leaves the sink as it was, so a later, smaller write may succeed.

Texts are kept one by one, the latest first, so that it can be told what was written since some
earlier point (`since`). Some callers stop at a write that is refused and some do not even ask:
`write?` is for the former and `offer` for the latter.
-/

namespace Glyph8

/-- Where output goes. -/
structure Sink where
  /-- How many more bytes fit, if there is a limit. -/
  room : Option Nat := none
  /-- The texts taken so far, the latest first. -/
  writes : List Text := []
deriving DecidableEq

namespace Sink

/-- Whether a text fits. -/
def fits (s : Sink) (t : Text) : Bool :=
  match s.room with
  | none => true
  | some n => t.length ≤ n

/-- The sink after taking a text. -/
def push (s : Sink) (t : Text) : Sink :=
  { room := s.room.map (· - t.length), writes := t :: s.writes }

/-- Writes a text, if it fits. -/
def write? (s : Sink) (t : Text) : Option Sink :=
  if s.fits t then some (s.push t) else none

/-- Writes a text and does not ask whether that succeeded. -/
def offer (s : Sink) (t : Text) : Sink := (s.write? t).getD s

/-- Offers texts one after the other. -/
def offerAll (s : Sink) (ts : List Text) : Sink := ts.foldl offer s

/-- Everything written, in order. -/
def text (s : Sink) : Text := s.writes.reverse.flatten

/-- What was written since `earlier`. -/
def since (s earlier : Sink) : Text :=
  (s.writes.take (s.writes.length - earlier.writes.length)).reverse.flatten

/-- What a refused write is reported as. -/
def fullMessage : Text := utf8 "writer full"

end Sink

end Glyph8
