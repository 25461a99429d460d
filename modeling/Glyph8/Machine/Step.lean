import Glyph8.Machine.Basic

/-!
# One step

Executing one instruction. A step that fails leaves the registers and the program counter as they
were, and counts as executed.

A step has three cases. A machine that has halted does nothing. At the end of the program the
machine halts, which counts no instruction. Otherwise the word is decoded, the instruction is
counted and executed, and a failure becomes a trap with the position of the instruction, counted
from one.

Every word decodes to some instruction, so what can fail is little: a jump that leads out of the
program, a system call whose number is unassigned, and reading and printing. A comparison that skips
the last instruction goes to the end of the program and no further (`advance`), and a jump may lead
there too.
-/

namespace Glyph8

/-- Why an instruction cannot be executed. -/
inductive TrapCause where
  | badJump
  | unassignedSyscall (id : Fin 4)
  | console (error : ConsoleError)
deriving DecidableEq

/-- The text of the cause of a trap. -/
def TrapCause.message : TrapCause → Text
  | badJump => utf8 "jump outside the program"
  | unassignedSyscall id => utf8 "unassigned syscall " ++ Text.decimal id
  | console error => error.message

/-- A failed instruction and its position, counted from one. -/
structure Trap where
  position : Nat
  instruction : Instruction
  cause : TrapCause
deriving DecidableEq

/-- The text of a trap. -/
def Trap.message (t : Trap) : Text :=
  utf8 "pc " ++ Text.decimal t.position ++ utf8 ": " ++ t.instruction.mnemonic ++ utf8 ": " ++
    t.cause.message

namespace Machine

/-- The machine with its program counter moved forward, at most to the end of the program. -/
def advance (m : Machine) (n : Nat) : Machine :=
  { m with pc := min (m.pc + n) m.program.size }

/-- The machine with a register set and the program counter moved to the next instruction. -/
def assign (m : Machine) (r : Register) (v : UInt8) : Machine :=
  { m with registers := m.registers.set r v }.advance 1

/-- The target of a jump, if it lies in the program or at its end. -/
def jumpTarget? (m : Machine) (d : Displacement) : Option Nat :=
  let target := (m.pc : Int) + d.val
  if 0 ≤ target ∧ target ≤ m.program.size then some target.toNat else none

/-- Executes a system call. -/
def service (m : Machine) (id : Fin 4) : Option TrapCause × Machine :=
  match Syscall.ofCode? (byteOf id) with
  | some .print =>
    match m.console.print m.registers.r1 with
    | (.ok (), console) => (none, { m with console }.advance 1)
    | (.error e, console) => (some (.console e), { m with console })
  | some .read =>
    match m.console.read with
    | (.ok v, console) => (none, { m with console }.assign .r1 v)
    | (.error e, console) => (some (.console e), { m with console })
  | some .terminate => (none, { m with halted := true }.advance 1)
  | none => (some (.unassignedSyscall id), m)

/-- Executes an instruction. -/
def execute (m : Machine) : Instruction → Option TrapCause × Machine
  | .add r s i => (none, m.assign r (m.registers.get r + m.registers.get s + byteOf i))
  | .sub r s i => (none, m.assign r (m.registers.get r - m.registers.get s - byteOf i))
  | .ifeq r s i =>
    (none, m.advance (if (m.registers.get r == m.registers.get s) == (i == 1) then 2 else 1))
  | .addi r i => (none, m.assign r (m.registers.get r + byteOf i))
  | .subi r i => (none, m.assign r (m.registers.get r - byteOf i))
  | .li r i => (none, m.assign r (byteOf i))
  | .jump d =>
    match m.jumpTarget? d with
    | some pc => (none, { m with pc })
    | none => (some .badJump, m)
  | .syscall id => m.service id

/-- Executes the next instruction. At the end of the program the machine halts instead, and a
halted machine does nothing. -/
def step (m : Machine) : Option Trap × Machine :=
  if m.halted then (none, m)
  else
    match m.program[m.pc]? with
    | none => (none, { m with halted := true })
    | some w =>
      let i := Word.decode w
      let (cause, next) := { m with steps := m.steps + 1 }.execute i
      (cause.map (⟨m.pc + 1, i, ·⟩), next)

end Machine

end Glyph8
