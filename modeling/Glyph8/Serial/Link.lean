import Glyph8.Loader.Board
import Glyph8.Serial.Uart

/-!
# Serial links

A link is the connection to a board over a serial device. It hides that calls get interrupted and
that writes are taken in pieces.

A read sets the timeout, reads one byte, and does so again as long as it is interrupted. A write
offers what is left until all of it is taken. It ends early if the device fails, or if the device
takes nothing and gives no reason, for this would go on forever. Both are loops over what the device
is going to answer (`readPast`, `writePast`), so they end with the list of answers.

A link is open until it is closed, also if closing fails. Reads and writes after that are errors and
do not reach the device; closing again is none. As a board, a link reports its errors by their
texts, but for a read that got nothing in time, which keeps its meaning.
-/

namespace Glyph8

/-- A connection over a serial device, which is closed at some point. -/
structure Link where
  uart : Uart
  isOpen : Bool := true
deriving DecidableEq

/-- Why a link fails. -/
inductive LinkError where
  | readClosed
  | writeClosed
  | device (error : UartError)
  | noResponse (timeout : Duration)
  | nothingTaken
  | closing (error : UartError)
deriving DecidableEq

namespace LinkError

/-- A link error as the error of a board. -/
def asBoard : LinkError → BoardError
  | readClosed => .failed (utf8 "internal error: read: port not open")
  | writeClosed => .failed (utf8 "internal error: write: port not open")
  | device error => .failed error.message
  | noResponse timeout => .noResponse timeout
  | nothingTaken => .failed (utf8 "write consumed 0 bytes")
  | closing error => .failed (utf8 "close serial port: " ++ error.message)

/-- The text of a link error. -/
def message (e : LinkError) : Text := e.asBoard.message

end LinkError

namespace Uart

/-- Reads until a read is not interrupted. The list is what the device will answer. -/
def readPast (u : Uart) : List ReadReply → ReadReply × Uart
  | [] => ({}, { u.record (.read 1) with reads := [] })
  | r :: rest =>
    let u := u.record (.read 1)
    if r.error = some .interrupted then readPast u rest else (r, { u with reads := rest })

/-- Writes until everything is taken or a write fails. The list is what the device will answer. -/
def writePast (u : Uart) : List WriteReply → Text → Except LinkError Unit × Uart
  | replies, [] => (.ok (), { u with writes := replies })
  | [], data => (.ok (), { u.record (.write data) with writes := [] })
  | r :: rest, data =>
    let u := u.record (.write data)
    match r.error with
    | some .interrupted => writePast u rest data
    | some e => (.error (.device e), { u with writes := rest })
    | none =>
      if r.count = 0 then (.error .nothingTaken, { u with writes := rest })
      else writePast u rest (data.drop r.count)

end Uart

namespace Link

/-- Reads one byte. -/
def read (timeout : Duration) (l : Link) : Except LinkError UInt8 × Link :=
  if !l.isOpen then (.error .readClosed, l)
  else
    match l.uart.setTimeout timeout with
    | (some e, uart) => (.error (.device e), { l with uart })
    | (none, uart) =>
      let (r, uart) := uart.readPast uart.reads
      let result := match r.error with
        | some e => .error (.device e)
        | none => if r.count = 0 then .error (.noResponse timeout) else .ok r.byte
      (result, { l with uart })

/-- Writes bytes. -/
def write (data : Text) (l : Link) : Except LinkError Unit × Link :=
  if !l.isOpen then (.error .writeClosed, l)
  else
    let (result, uart) := l.uart.writePast l.uart.writes data
    (result, { l with uart })

/-- Closes the link. Closing it again does nothing. -/
def close (l : Link) : Except LinkError Unit × Link :=
  if !l.isOpen then (.ok (), l)
  else
    match l.uart.close with
    | (some e, uart) => (.error (.closing e), ⟨uart, false⟩)
    | (none, uart) => (.ok (), ⟨uart, false⟩)

/-- Links as boards. -/
def board : Board Link where
  read timeout l :=
    let (result, l) := l.read timeout
    (result.mapError LinkError.asBoard, l)
  write data l :=
    let (result, l) := l.write data
    (result.mapError LinkError.asBoard, l)

end Link

end Glyph8
