import Glyph8.Machine.Step

/-!
# Runs

A run steps the machine until it halts, traps or reaches a bound on the number of executed
instructions. A machine has finitely many states that matter to its future: registers, program
counter, remaining input and remaining room for output. A run without a bound that takes more steps
than there are such states has come back to one of them and never ends.

So a run can be a function on all machines: it takes steps as long as there is fuel (`runFor`), and
the fuel is enough for every run that ends. The answer `endless` then says that no number of steps
would end the run. Fuel is never seen from outside.

A bound is tested before each step, and after whether the machine has halted. It counts the
instructions of earlier runs too. A number that is not positive is no bound.
-/

namespace Glyph8

/-- How a run ends. -/
inductive RunEnd where
  | halted
  | stepLimit (steps : Nat)
  | trapped (trap : Trap)
  /-- The machine repeats itself for ever. -/
  | endless
deriving DecidableEq

/-- The error a run ends with, if it does not end well. -/
def RunEnd.error? : RunEnd → Option Text
  | halted => none
  | stepLimit steps =>
    some (utf8 "step limit reached after " ++ Text.decimal steps ++ utf8 " instructions")
  | trapped trap => some trap.message
  | endless => some (utf8 "the program never ends")

namespace Machine

/-- The bound that a number of instructions stands for. Only positive numbers are bounds. -/
def stepBound (limit : Int) : Option Nat := if 0 < limit then some limit.toNat else none

/-- Whether the bound on executed instructions is reached. -/
def atLimit (m : Machine) : Option Nat → Bool
  | none => false
  | some limit => limit ≤ m.steps

/-- Steps the machine at most `fuel` times. -/
def runFor (limit : Option Nat) : Nat → Machine → RunEnd × Machine
  | 0, m => (if m.halted then .halted else .endless, m)
  | fuel + 1, m =>
    if m.halted then (.halted, m)
    else if m.atLimit limit then (.stepLimit m.steps, m)
    else
      match m.step with
      | (some trap, next) => (.trapped trap, next)
      | (none, next) => runFor limit fuel next

/-- How many states the machine can be in, as far as its future is concerned. -/
def stateCount (m : Machine) : Nat :=
  2 * Nat.pow 256 4 * (m.program.size + 1) * (m.console.input.length + 1) *
    (m.console.output.room.getD 0 + 1)

/-- Enough steps for a run to end, if it ends at all. A bounded run executes at most as many
instructions as the bound leaves, and then takes one step to halt. -/
def fuel (m : Machine) : Option Nat → Nat
  | some limit => limit - m.steps + 2
  | none => m.stateCount + 1

/-- Runs the machine. A bound counts the instructions of earlier runs too. -/
def run (m : Machine) (limit : Option Nat) : RunEnd × Machine := m.runFor limit (m.fuel limit)

end Machine

end Glyph8
