import Glyph8.Loader.Board
import Glyph8.Text.Numeral

/-!
# Downloading a program

The host waits until the board is quiet, synchronises with it, checks the version it speaks, and
sends the program. Nothing of the program is sent before the board has acknowledged each step.

A board may be in the middle of sending when a download begins, so the host first reads until a read
fails, up to a limit (`drain`). Synchronising is tried a few times, as a board may miss a sync while
it starts. A sync that was not acknowledged in time may be acknowledged late; so after a success,
one more byte is read for each earlier try, and it is not looked at (`discard`).

Each function takes the board's state and returns it along with the result, in success and in
failure. An error says at which stage it happened, and has the error of the board under it where
there is one. A program that is empty, or whose length does not fit two bytes, is refused before the
board is touched.
-/

namespace Glyph8

/-- Why a download fails. -/
inductive DownloadError where
  | emptyProgram
  | programTooLong (size : Nat)
  | neverQuiet
  | board (error : BoardError)
  | wrongAck (command reply : UInt8)
  | noSync
  | versionUnread (error : BoardError)
  | wrongVersion (version : UInt8)
  | confirmationUnread (error : BoardError)
  | rejected
  | wrongConfirmation (reply : UInt8)
deriving DecidableEq

/-- A byte as it is shown in messages. -/
def hexByte (b : UInt8) : Text := utf8 "0x" ++ Text.capitalHex 2 b.toNat

namespace DownloadError

/-- The text of a download error. -/
def message : DownloadError → Text
  | emptyProgram => utf8 "empty program"
  | programTooLong size =>
    utf8 "program is " ++ Text.decimal size ++ utf8 " bytes, limit is " ++
      Text.decimal Protocol.maxProgram
  | neverQuiet => utf8 "board is transmitting continuously"
  | board error => error.message
  | wrongAck command reply =>
    utf8 "command " ++ hexByte command ++ utf8 ": expected ack " ++
      hexByte (Protocol.ackOf command) ++ utf8 ", got " ++ hexByte reply
  | noSync => utf8 "failed to synchronize with board"
  | versionUnread error => utf8 "reading protocol version: " ++ error.message
  | wrongVersion version =>
    utf8 "board speaks protocol " ++ Text.decimal version.toNat ++ utf8 ", want " ++
      Text.decimal Protocol.version.toNat
  | confirmationUnread error => utf8 "waiting for load confirmation: " ++ error.message
  | rejected => utf8 "board rejected the program"
  | wrongConfirmation reply => utf8 "unexpected load confirmation " ++ hexByte reply

/-- The board error underneath, if there is one. -/
def boardError? : DownloadError → Option BoardError
  | board error | versionUnread error | confirmationUnread error => some error
  | _ => none

end DownloadError

namespace Download

/-- How many bytes a board may send before it has to be quiet. -/
def drainLimit : Nat := 300

/-- How often synchronising is tried. -/
def syncTries : Nat := 3

variable {σ : Type}

/-- Reads until a read fails, and says whether one of the first `n` did. -/
def drain (b : Board σ) (timeout : Duration) : Nat → σ → Bool × σ
  | 0, s => (false, s)
  | n + 1, s =>
    match b.read timeout s with
    | (.error _, s) => (true, s)
    | (.ok _, s) => drain b timeout n s

/-- Reads `n` times, whatever comes. -/
def discard (b : Board σ) (timeout : Duration) : Nat → σ → σ
  | 0, s => s
  | n + 1, s => discard b timeout n (b.read timeout s).2

/-- Sends a command and waits for its acknowledgement. -/
def command (b : Board σ) (timeout : Duration) (cmd : UInt8) (arguments : Text) (s : σ) :
    Except DownloadError Unit × σ :=
  match b.write (cmd :: arguments) s with
  | (.error e, s) => (.error (.board e), s)
  | (.ok (), s) =>
    match b.read timeout s with
    | (.error e, s) => (.error (.board e), s)
    | (.ok reply, s) =>
      (if reply = Protocol.ackOf cmd then .ok () else .error (.wrongAck cmd reply), s)

/-- Synchronises with the board in at most `tries` more tries, after `earlier` tries that failed.
The late acknowledgements of those are read afterwards. -/
def synchronise (b : Board σ) (timeout : Duration) (earlier : Nat) :
    Nat → σ → Except DownloadError Unit × σ
  | 0, s => (.error .noSync, s)
  | tries + 1, s =>
    match command b timeout Protocol.sync [] s with
    | (.ok (), s) => (.ok (), discard b timeout earlier s)
    | (.error _, s) => synchronise b timeout (earlier + 1) tries s

/-- Checks the version the board speaks. -/
def checkVersion (b : Board σ) (timeout : Duration) (s : σ) : Except DownloadError Unit × σ :=
  match command b timeout Protocol.getVersion [] s with
  | (.error e, s) => (.error e, s)
  | (.ok (), s) =>
    match b.read timeout s with
    | (.error e, s) => (.error (.versionUnread e), s)
    | (.ok v, s) => (if v = Protocol.version then .ok () else .error (.wrongVersion v), s)

/-- Drains the board, synchronises and checks the version. -/
def connect (b : Board σ) (timeout : Duration) (s : σ) : Except DownloadError Unit × σ :=
  match drain b timeout drainLimit s with
  | (false, s) => (.error .neverQuiet, s)
  | (true, s) =>
    match synchronise b timeout 0 syncTries s with
    | (.error e, s) => (.error e, s)
    | (.ok (), s) => checkVersion b timeout s

/-- What the board's last byte says about the load. -/
def confirmation (reply : UInt8) : Except DownloadError Unit :=
  if reply = Protocol.accepted then .ok ()
  else if reply = Protocol.refused then .error .rejected
  else .error (.wrongConfirmation reply)

/-- Sends the program to a board that is connected. -/
def transfer (b : Board σ) (timeout : Duration) (program : Text) (s : σ) :
    Except DownloadError Unit × σ :=
  match command b timeout Protocol.load (Protocol.lengthBytes program.length) s with
  | (.error e, s) => (.error e, s)
  | (.ok (), s) =>
    match b.write program s with
    | (.error e, s) => (.error (.board e), s)
    | (.ok (), s) =>
      match b.read timeout s with
      | (.error e, s) => (.error (.confirmationUnread e), s)
      | (.ok reply, s) => (confirmation reply, s)

end Download

/-- Downloads a program to a board. -/
def download {σ : Type} (b : Board σ) (timeout : Duration) (program : Text) (s : σ) :
    Except DownloadError Unit × σ :=
  if program.isEmpty then (.error .emptyProgram, s)
  else if Protocol.maxProgram < program.length then (.error (.programTooLong program.length), s)
  else
    match Download.connect b timeout s with
    | (.error e, s) => (.error e, s)
    | (.ok (), s) => Download.transfer b timeout program s

end Glyph8
