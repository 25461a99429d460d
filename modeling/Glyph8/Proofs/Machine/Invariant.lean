import Glyph8.Proofs.Machine.Semantics
import Glyph8.Proofs.Machine.Session

/-!
# What every call keeps

A machine can be asked for steps and runs in any order, also after calls that failed. So its state
is not one that a single run comes by, and an invariant has to survive failures: a step that fails
may have counted its instruction and used up input.

Each call is a number of steps, whether they fail or not (`exists_perform_eq`). So what a step keeps
is kept by any sequence of calls, and for the invariant only one step has to be looked at. That the
program stays and that the program counter stays in it or at its end is `InProgram`. It holds of a
machine that has just been loaded (`inProgram_load`), and after any calls (`InProgram.after`).

From the invariant follows what a maintainer wants to know about the next step (`StepsWithin`). An
instruction is missing only at the end of the program. A jump that succeeds leads to its target: the
program counter is a natural number, and subtraction could have been cut off at zero, but the step
fails before that. And at most one instruction is counted.

The main result, `calls_stay_in_program`, puts this together for every program, console and sequence
of calls. It also says that nothing changes a machine that has halted (`session_of_halted`).
-/

namespace Glyph8.Machine

/-- The machine after one step, whether or not the step fails. -/
def stepped (m : Machine) : Machine := m.step.2

/-- A machine with the given program that has its program counter in it, or at its end. -/
structure InProgram (program : List Word) (m : Machine) : Prop where
  program_eq : m.program = program.toArray
  pc_le : m.pc ≤ program.length

/-- The next step of a machine is made within its program. -/
structure StepsWithin (program : List Word) (m : Machine) : Prop where
  /-- Where there is no instruction, the program is at its end. -/
  fetch : m.program[m.pc]? = none ↔ m.pc = program.length
  /-- A jump that succeeds leads to its target, and is not cut off at zero. -/
  jump : ∀ {w d}, m.halted = false → m.program[m.pc]? = some w → Word.decode w = .jump d →
    m.step.1 = none → (m.stepped.pc : Int) = m.pc + d.val
  steps_le : m.steps ≤ m.stepped.steps
  stepped_steps_le : m.stepped.steps ≤ m.steps + 1

variable {m k next : Machine} {n : Nat} {program : List Word}

/-! ## Calls are steps -/

/-- A machine that is reached is reached in some number of steps. -/
theorem Reaches.exists_iterate (h : m.Reaches k) : ∃ n, k = stepped^[n] m := by
  induction h with
  | refl => exact ⟨0, rfl⟩
  | @tail k next _ hs ih =>
    obtain ⟨n, hn⟩ := ih
    refine ⟨n + 1, ?_⟩
    rw [Function.iterate_succ_apply', ← hn, stepped, hs]

/-- A run is a number of steps, of which the last may fail. -/
theorem exists_runFor_eq (limit : Option Nat) (fuel : Nat) (m : Machine) :
    ∃ n, (m.runFor limit fuel).2 = stepped^[n] m := by
  rcases runFor_reaches limit fuel m with ⟨hreach, _⟩ | ⟨k, trap, hreach, hk, _⟩
  · exact hreach.exists_iterate
  · obtain ⟨n, hn⟩ := hreach.exists_iterate
    refine ⟨n + 1, ?_⟩
    rw [Function.iterate_succ_apply', ← hn, stepped, hk]

/-- So is every call. -/
theorem exists_perform_eq (m : Machine) (c : Call) : ∃ n, (m.perform c).2 = stepped^[n] m := by
  cases c with
  | step => exact ⟨1, rfl⟩
  | run limit => exact exists_runFor_eq (stepBound limit) _ m

/-! ## The program counter -/

/-- A machine is loaded with its program counter at the first instruction. -/
theorem inProgram_load (program : List Word) (console : Console) :
    (load program console).InProgram program := ⟨rfl, Nat.zero_le _⟩

theorem exists_later_iterate (m : Machine) (n : Nat) : ∃ count, Later count m (stepped^[n] m) := by
  induction n with
  | zero => exact ⟨0, .refl m⟩
  | succ n ih =>
    obtain ⟨count, hcount⟩ := ih
    obtain ⟨i, _, hi⟩ := later_step (stepped^[n] m)
    rw [Function.iterate_succ_apply']
    exact ⟨count + i, hcount.trans hi⟩

theorem InProgram.iterate (h : m.InProgram program) (n : Nat) :
    (stepped^[n] m).InProgram program := by
  obtain ⟨count, hlater⟩ := m.exists_later_iterate n
  have hprogram := hlater.program.trans h.program_eq
  have hpc := hlater.pc_le (by rw [h.program_eq]; exact h.pc_le)
  rw [hprogram] at hpc
  exact ⟨hprogram, hpc⟩

/-- Calls stay in the program. -/
theorem InProgram.after (calls : List Call) :
    ∀ {m : Machine}, m.InProgram program → (m.after calls).InProgram program := by
  induction calls with
  | nil => exact id
  | cons c calls ih =>
    intro m h
    obtain ⟨n, hn⟩ := m.exists_perform_eq c
    have hperform := h.iterate n
    rw [← hn] at hperform
    exact ih hperform

/-- A jump that succeeds was checked to stay in the program. -/
theorem pc_of_jump {w : Word} {d : Displacement} (hm : m.halted = false)
    (hw : m.program[m.pc]? = some w) (hi : Word.decode w = .jump d) (hs : m.step.1 = none) :
    (m.stepped.pc : Int) = m.pc + d.val := by
  have h : m.Executes (.jump d) m.stepped := hi ▸ (step_eq_none_iff hm hw).mp (Prod.ext hs rfl)
  unfold stepped at h ⊢
  generalize m.step.2 = next at h
  cases h with
  | assign hi => cases hi
  | jump htarget hle => exact htarget

/-- In its program, a machine makes its next step within it. -/
theorem InProgram.stepsWithin (h : m.InProgram program) : m.StepsWithin program := by
  obtain ⟨n, hn, hlater⟩ := later_step m
  have hsteps : m.stepped.steps = m.steps + n := hlater.steps
  refine ⟨?_, pc_of_jump, by omega, by omega⟩
  have hle := h.pc_le
  rw [h.program_eq, Array.getElem?_eq_none_iff, List.size_toArray]
  omega

/-! ## Halted machines -/

/-- A machine that has halted replies without an error and stays as it is. -/
theorem perform_of_halted (hm : m.halted = true) (c : Call) :
    (m.perform c).1.error? = none ∧ (m.perform c).2 = m := by
  cases c with
  | step =>
    have hstep := step_of_halted hm
    simp only [perform, hstep]
    exact ⟨rfl, trivial⟩
  | run limit =>
    have hrun : m.run (stepBound limit) = (.halted, m) := runFor_of_halted hm
    simp only [perform, hrun]
    exact ⟨rfl, trivial⟩

/-- This goes on for as many calls as there are. -/
theorem session_of_halted (hm : m.halted = true) :
    ∀ calls, ∀ r ∈ m.session calls, r.1.error? = none ∧ r.2 = m := by
  intro calls
  induction calls with
  | nil =>
    intro r hr
    cases hr
  | cons c calls ih =>
    intro r hr
    have hperform := perform_of_halted hm c
    rcases List.mem_cons.mp hr with rfl | hr
    · exact hperform
    · rw [hperform.2] at hr
      exact ih r hr

/-! ## Any sequence of calls -/

/-- From any program and console, and after any calls: a further call leaves the program counter in
the program or at its end. It takes a number of steps, all of which are made within the program. It
does not lower the number of executed instructions, and a single step raises it by at most one. Once
the machine has halted, no call fails or changes anything. -/
theorem calls_stay_in_program (program : List Word) (console : Console) (calls : List Call)
    (call : Call) :
    let m := (load program console).after calls
    let k := (m.perform call).2
    k.InProgram program ∧
    (∃ n, k = stepped^[n] m) ∧ (∀ j, (stepped^[j] m).StepsWithin program) ∧
    m.steps ≤ k.steps ∧
    (call = .step → k.steps ≤ m.steps + 1) ∧
    (m.halted = true → ∀ more, ∀ r ∈ m.session more, r.1.error? = none ∧ r.2 = m) := by
  intro m k
  have hm : m.InProgram program := (inProgram_load program console).after calls
  -- the call is a number of steps, and steps keep all of it
  obtain ⟨n, hn⟩ := m.exists_perform_eq call
  have hk : k = stepped^[n] m := hn
  refine ⟨hk ▸ hm.iterate n, ⟨n, hk⟩, fun j => (hm.iterate j).stepsWithin, ?_, ?_,
    session_of_halted⟩
  · obtain ⟨count, hlater⟩ := m.exists_later_iterate n
    have hsteps := hlater.steps
    rw [← hk] at hsteps
    omega
  · rintro rfl
    exact hm.stepsWithin.stepped_steps_le

/-- A read that fails, a second run that reads the next line and terminates, and calls after that.
-/
theorem calls_stay_in_program_resumed :
    let fresh := load [0xE1, 0xE2] { input := utf8 "x\n7\n" }
    let m := fresh.after [.run 0, .run 0]
    (fresh.perform (.run 0)).1.trap?.isSome = true ∧ m.halted = true ∧ m.registers.r1 = 7 ∧
      ∀ r ∈ m.session [.step, .run 5], r.1.error? = none ∧ r.2 = m := by
  intro fresh m
  have hm : m.halted = true := by decide +kernel
  obtain ⟨_, _, _, _, _, hquiet⟩ :=
    calls_stay_in_program [0xE1, 0xE2] { input := utf8 "x\n7\n" } [.run 0, .run 0] .step
  exact ⟨by decide +kernel, hm, by decide +kernel, hquiet hm [.step, .run 5]⟩

end Glyph8.Machine
