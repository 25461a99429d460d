import Glyph8.Instruction.Printer
import Glyph8.Machine.Console

/-!
# The machine

Four byte registers, a program and a console. The program counter is the index of the next
instruction; it may point just past the last one.

The program is an array of words and is never changed. Registers are a structure with a field for
each, read and written by name (`get`, `set`). Arithmetic on them wraps around.

The number of executed instructions is part of the state, since it goes on across runs and bounds
refer to it. Whether the machine has halted is kept apart from the program counter: a machine at the
end of its program has not halted until it is asked for one more step.
-/

namespace Glyph8

/-- The contents of the registers. -/
structure Registers where
  r1 : UInt8 := 0
  r2 : UInt8 := 0
  r3 : UInt8 := 0
  r4 : UInt8 := 0
deriving DecidableEq

namespace Registers

/-- The contents of a register. -/
def get (rs : Registers) : Register → UInt8
  | .r1 => rs.r1
  | .r2 => rs.r2
  | .r3 => rs.r3
  | .r4 => rs.r4

/-- The registers with one of them changed. -/
def set (rs : Registers) (r : Register) (v : UInt8) : Registers :=
  match r with
  | .r1 => { rs with r1 := v }
  | .r2 => { rs with r2 := v }
  | .r3 => { rs with r3 := v }
  | .r4 => { rs with r4 := v }

@[simp] theorem get_set_self (rs : Registers) (r : Register) (v : UInt8) :
    (rs.set r v).get r = v := by
  cases r <;> rfl

theorem get_set_of_ne (rs : Registers) {r s : Register} (h : s ≠ r) (v : UInt8) :
    (rs.set r v).get s = rs.get s := by
  cases r <;> cases s <;> simp_all [get, set]

/-- The contents of the registers in order. -/
def toList (rs : Registers) : List UInt8 := Register.all.map rs.get

end Registers

/-- A machine with its program. -/
structure Machine where
  program : Array Word
  registers : Registers := {}
  pc : Nat := 0
  /-- How many instructions were executed. -/
  steps : Nat := 0
  halted : Bool := false
  console : Console := {}
deriving DecidableEq

/-- A machine before its first step. -/
def Machine.load (program : List Word) (console : Console) : Machine :=
  { program := program.toArray, console }

end Glyph8
