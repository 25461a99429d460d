import Glyph8.Loader.Protocol
import Glyph8.Text.Column
import Glyph8.Text.Numeral
import Glyph8.Text.Sink

/-!
# The protocol header

The protocol's constants as a C header for the firmware of the board. The header is written a line
at a time, and only the last line decides whether writing it succeeded.
-/

namespace Glyph8.Header

/-- The file that the header is written to. -/
def file : Text := utf8 "form_proto.h"

/-- The constants that the header defines. -/
def constants : List (Text × Nat) := [
  (utf8 "PROTOCOL_VERSION", Protocol.version.toNat),
  (utf8 "CMD_LOAD", Protocol.load.toNat),
  (utf8 "CMD_SYNC", Protocol.sync.toNat),
  (utf8 "CMD_GET_VER", Protocol.getVersion.toNat),
  (utf8 "ACK", Protocol.accepted.toNat),
  (utf8 "NAK", Protocol.refused.toNat),
  (utf8 "MAX_PROGRAM", Protocol.maxProgram)]

/-- The line that defines a constant. -/
def define (name : Text) (value : Nat) : Text :=
  utf8 "#define " ++ name.alignLeft 20 ++ utf8 " 0x" ++ Text.capitalHex 2 value ++ utf8 "\n"

/-- The lines before the last. -/
def body : List Text :=
  [utf8 "// Generated by formasm protogen. Do not edit.\n",
    utf8 "#ifndef FORM_PROTO_H\n",
    utf8 "#define FORM_PROTO_H\n",
    utf8 "\n"] ++
  constants.map (fun (name, value) => define name value) ++
  [utf8 "// Commands are acknowledged with their complement.\n",
    utf8 "#define ACK_OF(cmd)          ((unsigned char)~(cmd))\n",
    utf8 "\n"]

/-- The last line. -/
def closing : Text := utf8 "#endif // FORM_PROTO_H\n"

/-- The whole header. -/
def text : Text := body.flatten ++ closing

/-- Writes the header, and says whether its last line was written. -/
def write (out : Sink) : Bool × Sink :=
  let out := out.offerAll body
  match out.write? closing with
  | some out => (true, out)
  | none => (false, out)

end Glyph8.Header
