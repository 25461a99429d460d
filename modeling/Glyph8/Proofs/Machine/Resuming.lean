import Glyph8.Proofs.Machine.Invariant

/-!
# Stopped machines and how they go on

A call can end before the program does, by a trap or because a run has reached its bound. The
machine is still there and can be asked to go on. This module says what it then does.

A trap leaves everything but the number of executed instructions as it was, and the input if the
instruction is a read (`IntactAfter`). The program counter is among what stays, so the next step
tries the same instruction again, with the next line of input if it is a read (`Retries`). It may
succeed then. `failure_leaves_machine_intact` says this for steps, and for runs that meet a trap.
The next call may also be a run whose bound is used up, which does nothing.

A run that was stopped by its bound has only taken steps that a run with a larger bound takes too.
So the larger bound makes up for the smaller one, and the two runs together end as the second alone
(`run_resumed`). A bound counts the instructions of earlier calls as well, which is why this holds
without adding bounds up.

The first result comes from the specification of failures, in which all that is not mentioned stays
as it is. The second is by induction on the first run: each of its steps is one that the second run
would take, up to where it was stopped.
-/

namespace Glyph8.Machine

/-- What the failure of an instruction leaves of a machine. -/
structure IntactAfter (i : Instruction) (m k : Machine) : Prop where
  fetched : ∃ w, m.program[m.pc]? = some w ∧ Word.decode w = i
  program : k.program = m.program
  registers : k.registers = m.registers
  pc : k.pc = m.pc
  halted : k.halted = m.halted
  steps : k.steps = m.steps + 1
  /-- Only a read may use up input before it fails. -/
  console : i ≠ .syscall Syscall.read.id → k.console = m.console

/-- The instruction that has failed is the next that the machine executes. -/
structure Retries (trap : Trap) (k : Machine) : Prop where
  success : ∀ next, k.step = (none, next) → k.Executes trap.instruction next
  failure : ∀ again next, k.step = (some again, next) →
    again.position = trap.position ∧ again.instruction = trap.instruction
  /-- A call begins with that step, unless it is a run whose bound is used up. -/
  call : ∀ c, (∃ bound : Int, c = .run bound ∧ 0 < bound ∧ bound ≤ k.steps ∧
      k.perform c = (.ran (.stepLimit k.steps), k)) ∨
    ∃ n, (k.perform c).2 = stepped^[n] k.stepped

variable {m k next final : Machine} {trap : Trap} {limit : Option Nat} {i : Instruction}
  {cause : TrapCause} {ending ending' : RunEnd} {n n' count : Nat}

/-! ## Failed steps -/

/-- What the specification of failures does not mention is intact. -/
theorem Traps.intact {w : Word} (h : m.Traps (Word.decode w) cause k)
    (hw : m.program[m.pc]? = some w) : IntactAfter (Word.decode w) m k := by
  have hfetched : ∃ v, m.program[m.pc]? = some v ∧ Word.decode v = Word.decode w := ⟨w, hw, rfl⟩
  generalize Word.decode w = i at h hfetched
  cases h with
  | jump | unassigned | print => exact ⟨hfetched, rfl, rfl, rfl, rfl, rfl, fun _ => rfl⟩
  | read => exact ⟨hfetched, rfl, rfl, rfl, rfl, rfl, fun hi => absurd rfl hi⟩

theorem intact_of_step (h : m.step = (some trap, k)) : m.IntactAfter trap.instruction k := by
  obtain ⟨_, w, hw, _, hinstruction, htraps⟩ := exists_traps_of_step h
  rw [hinstruction]
  exact htraps.intact hw

/-! ## The first step of a run -/

/-- A run that has not used up its bound begins with a step. -/
theorem run_begins (hm : m.halted = false) (hl : m.atLimit limit = false) :
    ∃ n, (m.run limit).2 = stepped^[n] m.stepped := by
  obtain ⟨fuel, hfuel⟩ := m.exists_fuel limit
  unfold run
  rw [hfuel]
  rcases hs : m.step with ⟨_ | trap, next⟩
  · rw [runFor_of_step hm hl hs, stepped, hs]
    exact exists_runFor_eq limit fuel next
  · rw [runFor_of_trap hm hl hs, stepped, hs]
    exact ⟨0, rfl⟩

/-- Only a positive number can stop a machine, and only one that is used up. -/
theorem atLimit_stepBound {bound : Int} (h : m.atLimit (stepBound bound) = true) :
    0 < bound ∧ bound ≤ m.steps := by
  unfold stepBound at h
  split at h
  · next hpos =>
    have hle := of_decide_eq_true h
    exact ⟨hpos, by omega⟩
  · cases h

/-- The program counter is where it was, so the instruction comes next. -/
theorem retries_of_step (h : m.step = (some trap, k)) : k.Retries trap := by
  obtain ⟨hm, w, hw, hposition, hinstruction, htraps⟩ := exists_traps_of_step h
  have hintact := htraps.intact hw
  have hk : k.halted = false := hintact.halted.trans hm
  have hkw : k.program[k.pc]? = some w := by
    rw [hintact.program, hintact.pc]
    exact hw
  refine ⟨?_, ?_, ?_⟩
  · intro next hnext
    rw [hinstruction]
    exact (step_eq_none_iff hk hkw).mp hnext
  · intro again next hnext
    obtain ⟨cause, rfl, _⟩ := (step_eq_some_iff hk hkw).mp hnext
    exact ⟨by rw [hposition, hintact.pc], hinstruction.symm⟩
  · intro c
    cases c with
    | step => exact .inr ⟨0, rfl⟩
    | run bound =>
      -- a failed instruction is counted, so it may use up the bound of the next run
      cases hl : k.atLimit (stepBound bound) with
      | true =>
        obtain ⟨hpos, hle⟩ := atLimit_stepBound hl
        have hrun := run_of_limit hk hl
        exact .inl ⟨bound, rfl, hpos, hle, by simp only [perform, hrun]⟩
      | false => exact .inr (run_begins hk hl)

/-! ## Stopped runs -/

/-- A run that is stopped ends before a step, with as many instructions as it reports. -/
theorem RunsIn.stopped (h : RunsIn limit n m ending final) (hend : ending = .stepLimit count) :
    final.halted = false ∧ final.atLimit limit = true ∧ count = final.steps := by
  induction h with
  | halted | trap => cases hend
  | limit h hl => exact ⟨h, hl, (RunEnd.stepLimit.inj hend).symm⟩
  | step _ _ _ _ ih => exact ih hend

/-- The run has been stopped before a step, and stays stopped. -/
theorem run_stopped (h : m.run limit = (.stepLimit count, final)) :
    m.Reaches final ∧ final.halted = false ∧ count = final.steps ∧
      final.run limit = (.stepLimit count, final) := by
  obtain ⟨n, hr⟩ := exists_runsIn h nofun
  obtain ⟨hhalted, hl, hcount⟩ := hr.stopped rfl
  rcases hr.reaches with ⟨hreach, _⟩ | ⟨_, _, _, _, hend⟩
  · rw [hcount]
    exact ⟨hreach, hhalted, rfl, run_of_limit hhalted hl⟩
  · cases hend

/-- A run that meets a trap does so in its last step. -/
theorem run_trapped (h : m.run limit = (.trapped trap, final)) :
    ∃ last, m.Reaches last ∧ last.step = (some trap, final) := by
  obtain ⟨n, hr⟩ := exists_runsIn h nofun
  rcases hr.reaches with ⟨_, hend⟩ | ⟨last, trap', hreach, hlast, hend⟩
  · exact absurd rfl (hend trap)
  · cases hend
    exact ⟨last, hreach, hlast⟩

/-- A step that fails leaves the machine as it was, but for one more instruction counted and the
input of a read. A run that is stopped by its bound has done nothing after its last step, and would
do nothing again. A run that meets a trap leaves what its last step has left, and the machine tries
the same instruction next. -/
theorem failure_leaves_machine_intact (m : Machine) :
    (∀ trap next, m.step = (some trap, next) → m.IntactAfter trap.instruction next) ∧
    ∀ bound : Int,
      (∀ count final, m.run (stepBound bound) = (.stepLimit count, final) →
        m.Reaches final ∧ final.halted = false ∧ count = final.steps ∧
          final.run (stepBound bound) = (.stepLimit count, final)) ∧
      ∀ trap final, m.run (stepBound bound) = (.trapped trap, final) →
        ∃ last, m.Reaches last ∧ last.step = (some trap, final) ∧
          last.IntactAfter trap.instruction final ∧ final.Retries trap := by
  refine ⟨fun trap next h => intact_of_step h, fun bound => ⟨?_, ?_⟩⟩
  · intro count final h
    exact run_stopped h
  · intro trap final h
    obtain ⟨last, hreach, hlast⟩ := run_trapped h
    exact ⟨last, hreach, hlast, intact_of_step hlast, retries_of_step hlast⟩

/-- A print that does not fit, met by a step and by a run, and an endless loop that is stopped. -/
theorem failure_leaves_machine_intact_each :
    let full := load [0xE0] { output := { room := some 1 } }
    let trap : Trap := ⟨1, .syscall 0, .console .outputFull⟩
    full.step = (some trap, { full with steps := 1 }) ∧
      full.IntactAfter trap.instruction { full with steps := 1 } ∧
    full.run (stepBound 0) = (.trapped trap, { full with steps := 1 }) ∧
      Retries trap { full with steps := 1 } ∧
    (load [0xC0] {}).run (stepBound 3) = (.stepLimit 3, { load [0xC0] {} with steps := 3 }) ∧
      (load [0xC0] {}).Reaches { load [0xC0] {} with steps := 3 } := by
  intro full trap
  have hstep : full.step = (some trap, { full with steps := 1 }) := by decide
  have hrun : full.run (stepBound 0) = (.trapped trap, { full with steps := 1 }) := by
    decide +kernel
  have hloop : (load [0xC0] {}).run (stepBound 3) =
      (.stepLimit 3, { load [0xC0] {} with steps := 3 }) := by decide +kernel
  obtain ⟨hintact, hruns⟩ := failure_leaves_machine_intact full
  obtain ⟨last, _, _, _, hretries⟩ := (hruns 0).2 trap _ hrun
  obtain ⟨hreach, _⟩ := ((failure_leaves_machine_intact (load [0xC0] {})).2 3).1 3 _ hloop
  exact ⟨hstep, hintact trap _ hstep, hrun, hretries, hloop, hreach⟩

/-! ## Larger bounds -/

theorem atLimit_of_le {a b : Nat} (hab : a ≤ b) (h : m.atLimit (some a) = false) :
    m.atLimit (some b) = false := by
  have hlt := of_decide_eq_false h
  exact decide_eq_false (by omega)

/-- A run can be continued from where a smaller bound has ended it. -/
theorem RunsIn.resume {a b : Nat} (hab : a ≤ b) (h : RunsIn (some a) n m ending k)
    (hend : ∀ trap, ending ≠ .trapped trap) (h' : RunsIn (some b) n' k ending' final) :
    RunsIn (some b) (n + n') m ending' final := by
  induction h with
  | halted | limit => rwa [Nat.zero_add]
  | trap => exact absurd rfl (hend _)
  | step h hl hs _ ih =>
    rw [Nat.add_right_comm]
    exact .step h (atLimit_of_le hab hl) hs (ih hend h')

/-- Runs compose: a run that its bound has stopped, or that has halted, followed by a run with a
bound that is no smaller, ends as the second run alone, with the same machine. -/
theorem run_resumed (m : Machine) (first second : Int) (hpos : 0 < first)
    (hle : first ≤ second)
    (hend : (m.run (stepBound first)).1 = .halted ∨
      ∃ count, (m.run (stepBound first)).1 = .stepLimit count) :
    (m.run (stepBound first)).2.run (stepBound second) = m.run (stepBound second) := by
  have hfirst : stepBound first = some first.toNat := if_pos hpos
  have hsecond : stepBound second = some second.toNat := if_pos (by omega)
  rw [hfirst] at hend ⊢
  rw [hsecond]
  obtain ⟨n, hr⟩ := run_bounded.mp (rfl : m.run (some first.toNat) = (_, _))
  obtain ⟨n', hr'⟩ := run_bounded.mp
    (rfl : (m.run (some first.toNat)).2.run (some second.toNat) = (_, _))
  have htrap : ∀ trap, (m.run (some first.toNat)).1 ≠ .trapped trap := by
    intro trap
    rcases hend with hhalted | ⟨count, hstopped⟩
    · rw [hhalted]
      exact nofun
    · rw [hstopped]
      exact nofun
  exact (run_bounded.mpr ⟨n + n', hr.resume (by omega) htrap hr'⟩).symm

/-- A machine that has taken a step of an endless count, stopped in the middle, and one that
terminates within the first bound. -/
theorem run_resumed_each :
    let counting := (load [0x61, 0xD1] {}).after [.step]
    let ending := load [0x61, 0xE2] {}
    ((counting.run (stepBound 4)).1 = .stepLimit 4 ∧
      (counting.run (stepBound 4)).2.run (stepBound 7) = counting.run (stepBound 7)) ∧
    (ending.run (stepBound 4)).1 = .halted ∧
      (ending.run (stepBound 4)).2.run (stepBound 7) = ending.run (stepBound 7) := by
  intro counting ending
  have hstopped : (counting.run (stepBound 4)).1 = .stepLimit 4 := by decide +kernel
  have hhalted : (ending.run (stepBound 4)).1 = .halted := by decide +kernel
  exact ⟨⟨hstopped, run_resumed counting 4 7 (by decide) (by decide) (.inr ⟨4, hstopped⟩)⟩,
    hhalted, run_resumed ending 4 7 (by decide) (by decide) (.inl hhalted)⟩

end Glyph8.Machine
