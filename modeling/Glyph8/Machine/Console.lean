import Glyph8.Text.Blank
import Glyph8.Text.Quoted
import Glyph8.Text.Sink

/-!
# Consoles

A console gives a program the lines of an input text and takes the values it prints. A read takes
one whole line, whether or not the line is a value. The input may end with an error rather than at
its end; then a last line without a newline is lost.

All of the input is given beforehand, as a text and the way in which it ends, so a console is a
value and a read is a function that returns the rest of it. Where the input is typed, a prompt is
printed before each read; if there is no room for the prompt, the read goes on without it.

A value is a number up to 255 in decimal, possibly between blanks. Output goes to a sink, which may
have room for only so many bytes. A print that does not fit is an error and prints nothing.
-/

namespace Glyph8

/-- What a program reads from and prints to. -/
structure Console where
  /-- What has not been read yet. -/
  input : Text := []
  /-- The error that follows the input, if it does not simply end. -/
  failure : Option Text := none
  output : Sink := {}
  /-- Whether a prompt is printed before each read. -/
  interactive : Bool := false
deriving DecidableEq

/-- Why a read or print fails. -/
inductive ConsoleError where
  | endOfInput
  | inputFailed (cause : Text)
  | notValue (line : Text)
  | outputFull
deriving DecidableEq

/-- The text of a console error. -/
def ConsoleError.message : ConsoleError → Text
  | endOfInput => utf8 "read: end of input"
  | inputFailed cause => utf8 "read: " ++ cause
  | notValue line => utf8 "read: " ++ line.quote ++ utf8 " is not a value 0..255"
  | outputFull => Sink.fullMessage

namespace Console

/-- Printed before a read from an interactive console. -/
def promptText : Text := utf8 "> "

/-- The value on a line: a number up to 255, possibly between blanks. -/
def value (line : Text) : Except ConsoleError UInt8 :=
  match line.trim.byte? with
  | some v => .ok v
  | none => .error (.notValue line.trim)

/-- The console after its prompt, if it has one. Whether the prompt fits does not matter. -/
def prompt (c : Console) : Console :=
  if c.interactive then { c with output := c.output.offer promptText } else c

/-- Takes the next line of the input. -/
def takeLine (c : Console) : Except ConsoleError Text × Console :=
  match c.input.span (· != Text.newline) with
  | (line, _ :: rest) => (.ok line, { c with input := rest })
  | (line, []) =>
    let c := { c with input := [] }
    match c.failure with
    | some cause => (.error (.inputFailed cause), c)
    | none => (if line.isEmpty then .error .endOfInput else .ok line, c)

/-- Reads one value. -/
def read (c : Console) : Except ConsoleError UInt8 × Console :=
  let (line, c) := c.prompt.takeLine
  (line.bind value, c)

/-- The line that prints a value. -/
def printed (v : UInt8) : Text := Text.decimal v.toNat ++ utf8 "\n"

/-- Prints one value. -/
def print (c : Console) (v : UInt8) : Except ConsoleError Unit × Console :=
  match c.output.write? (printed v) with
  | some output => (.ok (), { c with output })
  | none => (.error .outputFull, c)

end Console

end Glyph8
