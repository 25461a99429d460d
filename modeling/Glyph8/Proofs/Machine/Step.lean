import Glyph8.Machine.Step

/-!
# The three kinds of steps

A step is one of three things: nothing, because the machine has halted; halting, because the program
is at its end; or executing the next instruction. Each has an equation here, so that proofs about
steps need not open the definition again.

In the third case the instruction is counted first, whether it succeeds or fails (`counted`). It is
executed by the machine in which it has been counted, and an error is reported with the position of
the instruction, which begins at one.
-/

namespace Glyph8.Machine

/-- The machine with one more instruction counted. -/
def counted (m : Machine) : Machine := { m with steps := m.steps + 1 }

theorem step_of_halted {m : Machine} (h : m.halted = true) : m.step = (none, m) := by
  unfold step
  rw [if_pos h]

/-- At the end of its program a machine halts, and counts nothing. -/
theorem step_of_end {m : Machine} (h : m.halted = false) (hpc : m.program[m.pc]? = none) :
    m.step = (none, { m with halted := true }) := by
  unfold step
  rw [if_neg (by rw [h]; decide), hpc]

/-- Elsewhere the next instruction is counted and executed. -/
theorem step_of_word {m : Machine} {w : Word} (h : m.halted = false)
    (hw : m.program[m.pc]? = some w) :
    m.step = ((m.counted.execute (Word.decode w)).1.map (⟨m.pc + 1, Word.decode w, ·⟩),
      (m.counted.execute (Word.decode w)).2) := by
  unfold step
  rw [if_neg (by rw [h]; decide), hw]
  rfl

/-- A step that fails has found an instruction. -/
theorem exists_word_of_trap {m : Machine} {trap : Trap} (h : m.step.1 = some trap) :
    m.halted = false ∧ ∃ w, m.program[m.pc]? = some w := by
  cases hhalted : m.halted with
  | true =>
    rw [step_of_halted hhalted] at h
    cases h
  | false =>
    cases hw : m.program[m.pc]? with
    | none =>
      rw [step_of_end hhalted hw] at h
      cases h
    | some w => exact ⟨rfl, w, rfl⟩

end Glyph8.Machine
