import Glyph8.Text.Basic

/-!
# The download protocol

The bytes that the host and the loader board exchange. Every command is acknowledged with its
complement.

There are three commands: to synchronise, to ask for the version, and to load a program. The first
two are single bytes. A load is announced with the length of the program in two bytes, the high one
first; then, after the acknowledgement, come the bytes of the program, and the board answers whether
it took them.
-/

namespace Glyph8.Protocol

/-- The version both sides have to speak. -/
def version : UInt8 := 1

/-- Followed by the length of a program, high byte first, and then the program. -/
def load : UInt8 := 0xED

/-- Asks whether the board is there. -/
def sync : UInt8 := 0xEE

/-- Asks for the version the board speaks. -/
def getVersion : UInt8 := 0xEF

/-- Confirms a completed load. -/
def accepted : UInt8 := 0x55

/-- Refuses a completed load. -/
def refused : UInt8 := 0xAA

/-- The length of the longest program that can be described. -/
def maxProgram : Nat := 0xFFFF

/-- The byte that acknowledges a command. -/
def ackOf (command : UInt8) : UInt8 := ~~~command

/-- The two bytes of a length, the high one first. -/
def lengthBytes (n : Nat) : Text := [(n / 256).toUInt8, n.toUInt8]

end Glyph8.Protocol
