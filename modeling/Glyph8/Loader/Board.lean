import Glyph8.Duration.Printer
import Glyph8.Loader.Protocol

/-!
# Boards

What the host needs of a board: to read a byte within some time, and to write bytes. A `Script` is a
board that answers from a list and keeps a record of what it was asked.

A board is a pair of functions on a state of any type. A download is written for all boards, so it
can be run on a script, on a serial link, on a model of the firmware, or on a board that keeps a
record of another one. Time does not pass: a read that gets nothing in time is an answer like any
other, and it names the time that was waited.
-/

namespace Glyph8

/-- Why a board does not do what it is asked to. -/
inductive BoardError where
  | noResponse (timeout : Duration)
  | failed (message : Text)
deriving DecidableEq

/-- The text of a board error. -/
def BoardError.message : BoardError → Text
  | noResponse timeout => utf8 "read from Arduino: no response after " ++ timeout.text
  | failed message => message

/-- A board whose state is a `σ`. -/
structure Board (σ : Type) where
  /-- Reads one byte, waiting no longer than the given time. -/
  read : Duration → σ → Except BoardError UInt8 × σ
  /-- Writes bytes. -/
  write : Text → σ → Except BoardError Unit × σ

/-- The answer of a script to one read. -/
inductive Reply where
  | byte (b : UInt8)
  | error (message : Text)
  | silence
deriving DecidableEq

/-- Something a script was asked to do, and how that went. -/
inductive BoardCall where
  | read (reply : Reply)
  | write (data : Text) (succeeded : Bool)
deriving DecidableEq

/-- A board that answers reads from a list, and is silent afterwards. -/
structure Script where
  replies : List Reply
  /-- Which write fails, counted from one; none does if it is zero. -/
  failingWrite : Nat := 0
  writes : Nat := 0
  /-- The record, the latest call first. -/
  calls : List BoardCall := []
deriving DecidableEq

namespace Script

/-- The answer to the next read. -/
def next (s : Script) : Reply := s.replies.head?.getD .silence

/-- Reads from a script. -/
def read (timeout : Duration) (s : Script) : Except BoardError UInt8 × Script :=
  let after := { s with replies := s.replies.tail, calls := .read s.next :: s.calls }
  match s.next with
  | .byte b => (.ok b, after)
  | .error message => (.error (.failed message), after)
  | .silence => (.error (.noResponse timeout), after)

/-- Writes to a script. -/
def write (data : Text) (s : Script) : Except BoardError Unit × Script :=
  let succeeds := s.writes + 1 != s.failingWrite
  let after := { s with writes := s.writes + 1, calls := .write data succeeds :: s.calls }
  (if succeeds then .ok () else .error (.failed (utf8 "write failed")), after)

/-- Scripts as boards. -/
def board : Board Script where
  read := read
  write := write

end Script

end Glyph8
