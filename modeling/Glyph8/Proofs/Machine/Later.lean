import Glyph8.Proofs.Machine.Semantics

/-!
# What later machines have kept

Many facts about a machine are of one kind: they hold at the start, and no step changes them. The
program is the same, the program counter stays in it or at its end, instructions are counted one by
one, input is used up from the front and the room for output gets no larger.

`Later n a b` collects them, with the number of instructions between the two machines. Each way in
which an instruction can be executed or fail gives a later machine (`Executes.later`,
`Traps.later`), so every step does, with a number that is zero or one (`later_step`). A step that
fails counts its instruction too. A step that finds no instruction counts none.

What follows are the facts that other modules use one by one.
-/

namespace Glyph8.Machine

/-- A machine `b` that comes `n` instructions after `a`. The program counter stays in the program or
at its end. -/
structure Later (n : Nat) (a b : Machine) : Prop where
  program : b.program = a.program
  pc_le : a.pc ≤ a.program.size → b.pc ≤ b.program.size
  steps : b.steps = a.steps + n
  console : a.console.Later b.console

namespace Later

variable {n k : Nat} {a b c : Machine}

theorem refl (m : Machine) : Later 0 m m := ⟨rfl, id, rfl, .refl _⟩

theorem trans (h : Later n a b) (h' : Later k b c) : Later (n + k) a c where
  program := h'.program.trans h.program
  pc_le ha := h'.pc_le (h.pc_le ha)
  steps := by rw [h'.steps, h.steps, Nat.add_assoc]
  console := h.console.trans h'.console

end Later

variable {m next : Machine} {i : Instruction} {cause : TrapCause} {w : Word}

/-- An instruction that is executed is counted. -/
theorem Executes.later (h : m.Executes i next) (hpc : m.pc < m.program.size) :
    Later 1 m next := by
  cases h with
  | assign | proceed | terminate => exact ⟨rfl, fun _ => hpc, rfl, .refl _⟩
  | skip => exact ⟨rfl, fun _ => Nat.min_le_right _ _, rfl, .refl _⟩
  | jump _ hle => exact ⟨rfl, fun _ => hle, rfl, .refl _⟩
  | print => exact ⟨rfl, fun _ => hpc, rfl, m.console.later_push _⟩
  | read hline => exact ⟨rfl, fun _ => hpc, rfl, hline.later⟩

/-- So is one that fails. -/
theorem Traps.later (h : m.Traps i cause next) : Later 1 m next := by
  cases h with
  | jump | unassigned | print => exact ⟨rfl, id, rfl, .refl _⟩
  | read hline => exact ⟨rfl, id, rfl, hline.later⟩

/-- A step that finds an instruction counts it. -/
theorem later_step_of_word (h : m.halted = false) (hw : m.program[m.pc]? = some w) :
    Later 1 m m.step.2 := by
  have hpc := (Array.getElem?_eq_some_iff.mp hw).1
  rcases hs : m.step with ⟨_ | trap, next⟩
  · exact ((step_eq_none_iff h hw).mp hs).later hpc
  · obtain ⟨_, _, htraps⟩ := (step_eq_some_iff h hw).mp hs
    exact htraps.later

/-- Every step leads to a later machine, and counts one instruction at most. -/
theorem later_step (m : Machine) : ∃ n ≤ 1, Later n m m.step.2 := by
  cases hhalted : m.halted with
  | true =>
    rw [step_of_halted hhalted]
    exact ⟨0, by omega, Later.refl m⟩
  | false =>
    cases hw : m.program[m.pc]? with
    | none =>
      rw [step_of_end hhalted hw]
      exact ⟨0, by omega, ⟨rfl, id, rfl, .refl _⟩⟩
    | some w => exact ⟨1, by omega, later_step_of_word hhalted hw⟩

/-- The number of executed instructions after a step that finds an instruction. -/
theorem steps_of_word {m next : Machine} {trap : Option Trap} {w : Word}
    (hs : m.step = (trap, next)) (h : m.halted = false) (hw : m.program[m.pc]? = some w) :
    next.steps = m.steps + 1 := by
  have hlater := later_step_of_word h hw
  rw [hs] at hlater
  exact hlater.steps

/-- A step counts one instruction at most. -/
theorem steps_le_of_step {m next : Machine} {trap : Option Trap} (hs : m.step = (trap, next)) :
    next.steps ≤ m.steps + 1 := by
  obtain ⟨i, hi, hlater⟩ := later_step m
  rw [hs] at hlater
  have hsteps : next.steps = m.steps + i := hlater.steps
  omega

theorem step_program (m : Machine) : m.step.2.program = m.program := by
  obtain ⟨_, _, h⟩ := later_step m
  exact h.program

end Glyph8.Machine
