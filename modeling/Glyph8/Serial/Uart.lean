import Glyph8.Duration.Printer

/-!
# Serial devices

A serial device answers reads and writes from lists and keeps a record of the calls made to it. It
may take only a part of the bytes it is offered, and may report that a call was interrupted.

An answer has a count of bytes and an error, and both may be there at once, as for calls to a real
device. Setting the timeout and closing may fail as well. The lists stand for whatever the device
does; once they are used up, it brings nothing and takes everything.
-/

namespace Glyph8

/-- What a serial device reports when a call fails. -/
inductive UartError where
  | interrupted
  | unavailable
  | inputOutput
  | other (message : Text)
deriving DecidableEq

/-- The text of a device error. -/
def UartError.message : UartError → Text
  | interrupted => utf8 "interrupted system call"
  | unavailable => utf8 "resource temporarily unavailable"
  | inputOutput => utf8 "input/output error"
  | other message => message

/-- The answer to a read: how many bytes came, the byte, and an error. -/
structure ReadReply where
  count : Int := 0
  byte : UInt8 := 0
  error : Option UartError := none
deriving DecidableEq

/-- The answer to a write: how many bytes the device is ready to take, and an error. -/
structure WriteReply where
  count : Nat
  error : Option UartError := none
deriving DecidableEq

/-- A call made to a serial device. -/
inductive UartCall where
  | setTimeout (timeout : Duration)
  | read (size : Nat)
  | write (data : Text)
  | close
deriving DecidableEq

/-- A serial device. Once its lists are used up, reads bring nothing and writes take everything. -/
structure Uart where
  reads : List ReadReply := []
  writes : List WriteReply := []
  timeoutError : Option UartError := none
  closeError : Option UartError := none
  /-- The record, the latest call first. -/
  calls : List UartCall := []
deriving DecidableEq

namespace Uart

/-- The device with one more call in its record. -/
def record (u : Uart) (call : UartCall) : Uart := { u with calls := call :: u.calls }

/-- Sets how long reads wait. -/
def setTimeout (u : Uart) (timeout : Duration) : Option UartError × Uart :=
  (u.timeoutError, u.record (.setTimeout timeout))

/-- Closes the device. -/
def close (u : Uart) : Option UartError × Uart := (u.closeError, u.record .close)

end Uart

end Glyph8
