import Glyph8.Proofs.Machine.Unbounded

/-!
# Runs with a bound

A run may be given a bound on executed instructions, and zero means that there is none
(`stepBound`). The bound is tested before each step, and before the machine finds out that its
program is at its end. So a bound stops a machine that has executed as many instructions and has not
halted, even if it would halt in its next step without executing anything (`run_stepLimit_iff`).

What comes of this depends on how a program ends. It may execute a system call that terminates it
(`Terminates`), or run off its end (`RunsOffEnd`); there is no other way to end well. In the first
case the last instruction is the end, and a bound that allows it is enough. In the second the end is
found in a step of its own, which executes nothing but comes after the test. A program that runs off
its end therefore needs a bound that is larger than the number of instructions that it executes.

The main result, `run_budget_exact`, says this for every program, console and bound. It compares the
number of instructions of a run without a bound with the bound: if it is larger, the run is stopped;
if it is smaller, the run ends as without the bound; and if it is the same, the way of ending
decides.

The argument is about the machines that a run comes by. The number of executed instructions goes up
by one from each to the next, until the machine halts, so every number up to the last is met
(`Reaches.exists_steps`).
-/

namespace Glyph8.Machine

variable {m next k final stopped : Machine} {n max count : Nat} {ending : RunEnd}

/-! ## Reaching a number of instructions -/

/-- A machine on the way to one that has not halted has executed fewer instructions. -/
theorem Reaches.steps_lt (hs : m.step = (none, next)) (h : next.Reaches k) (hk : k.halted = false) :
    m.halted = false ∧ m.steps < k.steps := by
  obtain ⟨i, hlater⟩ := h.later
  have hsteps := hlater.steps
  cases hm : m.halted with
  | true =>
    -- a halted machine would lead to itself only
    rw [step_of_halted hm] at hs
    rw [← (Prod.mk.inj hs).2] at h
    rw [h.eq_of_halted hm, hm] at hk
    cases hk
  | false =>
    refine ⟨rfl, ?_⟩
    cases hw : m.program[m.pc]? with
    | none =>
      rw [step_of_end hm hw] at hs
      rw [← (Prod.mk.inj hs).2] at h
      rw [h.eq_of_halted rfl] at hk
      cases hk
    | some w =>
      have hnext := steps_of_word hs hm hw
      omega

/-- A run can be continued backwards over machines that the bound does not stop. -/
theorem RunsIn.of_reaches (h : m.Reaches k) (hk : k.halted = false) (hle : k.steps ≤ max)
    (hr : RunsIn (some max) n k ending final) : ∃ n, RunsIn (some max) n m ending final := by
  induction h using Relation.ReflTransGen.head_induction_on with
  | refl => exact ⟨n, hr⟩
  | @head m next hs h ih =>
    obtain ⟨hm, hlt⟩ := Reaches.steps_lt hs h hk
    obtain ⟨n, hn⟩ := ih
    exact ⟨n + 1, .step hm (decide_eq_false (by omega)) hs hn⟩

/-- On the way to a number of executed instructions, a machine passes every smaller number. -/
theorem Reaches.exists_steps (h : m.Reaches final) (hle : m.steps ≤ max)
    (hlt : max < final.steps) : ∃ k, m.Reaches k ∧ k.halted = false ∧ k.steps = max := by
  induction h using Relation.ReflTransGen.head_induction_on with
  | refl => omega
  | @head m next hs h ih =>
    by_cases hmax : m.steps = max
    · refine ⟨m, .refl m, ?_, hmax⟩
      cases hm : m.halted with
      | true =>
        -- a halted machine would count no further instruction, but `final` has counted more
        rw [Reaches.eq_of_halted (.head hs h) hm] at hlt
        omega
      | false => rfl
    · have hsteps := steps_le_of_step hs
      obtain ⟨k, hk, hhalted⟩ := ih (by omega)
      exact ⟨k, .head hs hk, hhalted⟩

/-! ## Stopping at the bound -/

/-- A run that the bound stops has come as far as the bound allows. -/
theorem RunsIn.at_limit (h : RunsIn (some max) n m ending stopped)
    (hend : ending = .stepLimit count) (hle : m.steps ≤ max) :
    count = max ∧ m.Reaches stopped ∧ stopped.steps = max ∧ stopped.halted = false := by
  induction h with
  | halted | trap => cases hend
  | limit h hl =>
    have hl := of_decide_eq_true hl
    have hcount := RunEnd.stepLimit.inj hend
    exact ⟨by omega, .refl _, by omega, h⟩
  | @step m next _ _ _ _ hl hs _ ih =>
    have hl := of_decide_eq_false hl
    have hsteps := steps_le_of_step hs
    obtain ⟨hcount, hreach, hstopped⟩ := ih hend (by omega)
    exact ⟨hcount, .head hs hreach, hstopped⟩

/-- A bound stops exactly the machine that has executed as many instructions and not halted. -/
theorem run_stepLimit_iff (hle : m.steps ≤ max) :
    m.run (some max) = (.stepLimit count, stopped) ↔
      count = max ∧ m.Reaches stopped ∧ stopped.steps = max ∧ stopped.halted = false := by
  rw [run_bounded]
  constructor
  · intro ⟨n, hr⟩
    exact hr.at_limit rfl hle
  · intro ⟨hcount, hreach, hsteps, hhalted⟩
    have hr : RunsIn (some max) 0 stopped (.stepLimit stopped.steps) stopped :=
      .limit hhalted (decide_eq_true (by omega))
    rw [show stopped.steps = count by omega] at hr
    exact hr.of_reaches hreach hhalted hsteps.le

/-! ## How a program ends -/

/-- The machine ends because it executes a system call that terminates it. -/
def Terminates (m final : Machine) : Prop :=
  ∃ k w, m.Reaches k ∧ k.halted = false ∧ k.program[k.pc]? = some w ∧
    Word.decode w = .syscall Syscall.terminate.id ∧ k.step = (none, final)

/-- The machine ends because it reaches the end of its program. -/
def RunsOffEnd (m final : Machine) : Prop :=
  ∃ k, m.Reaches k ∧ k.halted = false ∧ k.pc = k.program.size ∧ final = { k with halted := true }

/-- A program that ends well does so in one of these ways. -/
theorem RunsIn.terminates_or_runsOffEnd (h : RunsIn none n m .halted final)
    (hm : m.halted = false) (hpc : m.pc ≤ m.program.size) :
    m.Terminates final ∨ m.RunsOffEnd final := by
  have hn : 0 < n := by
    cases h with
    | halted hm' => rw [hm] at hm'; cases hm'
    | step => omega
  -- `k` is the machine before the last step, and the word it finds there decides
  obtain ⟨k, hreach, hk, hr⟩ := h.suffix 0 hn
  obtain ⟨i, hlater⟩ := hreach.later
  have hle := hlater.pc_le hpc
  cases hr with
  | step _ _ hs hr =>
    cases hr with
    | halted hfinal =>
      cases hw : k.program[k.pc]? with
      | none =>
        rw [step_of_end hk hw] at hs
        have hsize := Array.getElem?_eq_none_iff.mp hw
        exact .inr ⟨k, hreach, hk, by omega, (Prod.mk.inj hs).2.symm⟩
      | some w =>
        have hsyscall : Word.decode w = .syscall Syscall.terminate.id :=
          ((step_eq_none_iff hk hw).mp hs).eq_terminate hk hfinal
        exact .inl ⟨k, w, hreach, hk, hw, hsyscall, hs⟩

/-- A terminated program has done so by its last instruction, which the bound allows. -/
theorem Terminates.run_eq (h : m.Terminates final) (hle : final.steps ≤ max) :
    m.run (some max) = (.halted, final) := by
  obtain ⟨k, w, hreach, hk, hw, hsyscall, hs⟩ := h
  have hsteps := steps_of_word hs hk hw
  have hfinal : final.halted = true := by
    rw [step_of_word hk hw, hsyscall] at hs
    rw [← (Prod.mk.inj hs).2]
    rfl
  have hr : RunsIn (some max) 1 k .halted final :=
    .step hk (decide_eq_false (by omega)) hs (.halted hfinal)
  exact run_bounded.mpr (hr.of_reaches hreach hk (by omega))

/-- A program that runs off its end needs a larger bound than it has executed instructions. -/
theorem RunsOffEnd.run_eq (h : m.RunsOffEnd final) (hlt : final.steps < max) :
    m.run (some max) = (.halted, final) := by
  obtain ⟨k, hreach, hk, hpc, hfinal⟩ := h
  rw [hfinal] at hlt ⊢
  have hlt : k.steps < max := hlt
  have hs := step_of_end hk (Array.getElem?_eq_none (by omega))
  have hr : RunsIn (some max) 1 k .halted { k with halted := true } :=
    .step hk (decide_eq_false (by omega)) hs (.halted rfl)
  exact run_bounded.mpr (hr.of_reaches hreach hk hlt.le)

/-- The bound stops it at the end of its program, before it halts. -/
theorem RunsOffEnd.run_stepLimit (h : m.RunsOffEnd final) (hle : m.steps ≤ final.steps) :
    m.run (some final.steps) = (.stepLimit final.steps, { final with halted := false }) := by
  obtain ⟨k, hreach, hk, _, hfinal⟩ := h
  have heq : { final with halted := false } = k := by
    rw [hfinal, ← hk]
  rw [heq]
  exact (run_stepLimit_iff hle).mpr ⟨rfl, hreach, by rw [hfinal], hk⟩

theorem stepBound_of_pos (h : 0 < max) : stepBound max = some max := by
  unfold stepBound
  rw [if_pos (by omega), Int.toNat_natCast]

/-- What a bound does to the runs of a program, exactly. -/
theorem run_budget_exact (program : List Word) (console : Console) (max : Nat) (hmax : 0 < max) :
    let m := load program console
    (∀ count stopped, m.run (stepBound max) = (.stepLimit count, stopped) ↔
      count = max ∧ m.Reaches stopped ∧ stopped.steps = max ∧ stopped.halted = false) ∧
    ∀ final, m.run (stepBound 0) = (.halted, final) →
      (max < final.steps → ∃ stopped, m.run (stepBound max) = (.stepLimit max, stopped)) ∧
      (final.steps < max → m.run (stepBound max) = (.halted, final)) ∧
      (final.steps = max →
        m.Terminates final ∧ m.run (stepBound max) = (.halted, final) ∨
        m.RunsOffEnd final ∧
          m.run (stepBound max) = (.stepLimit max, { final with halted := false })) := by
  intro m
  have hsteps : m.steps ≤ max := Nat.zero_le max
  rw [stepBound_of_pos hmax]
  refine ⟨fun count stopped => run_stepLimit_iff hsteps, ?_⟩
  intro final hfinal
  obtain ⟨n, hr⟩ := (run_unbounded (by nofun)).mp hfinal
  refine ⟨?_, ?_, ?_⟩
  · intro hlt
    rcases hr.reaches with ⟨hreach, _⟩ | ⟨_, _, _, _, hend⟩
    · obtain ⟨k, hk, hhalted, hmax⟩ := hreach.exists_steps hsteps hlt
      exact ⟨k, (run_stepLimit_iff hsteps).mpr ⟨rfl, hk, hmax, hhalted⟩⟩
    · cases hend
  · intro hlt
    rcases hr.terminates_or_runsOffEnd rfl (Nat.zero_le _) with h | h
    · exact h.run_eq (by omega)
    · exact h.run_eq hlt
  · intro heq
    rcases hr.terminates_or_runsOffEnd rfl (Nat.zero_le _) with h | h
    · exact .inl ⟨h, h.run_eq (by omega)⟩
    · rw [← heq]
      exact .inr ⟨h, h.run_stepLimit (Nat.zero_le _)⟩

/-- A program of one instruction that runs off its end needs a bound of two. -/
theorem budget_stops_finished_program :
    (load [0xA0] {}).run (stepBound 0) =
        (.halted, { load [0xA0] {} with pc := 1, steps := 1, halted := true }) ∧
      (load [0xA0] {}).run (stepBound 1) =
        (.stepLimit 1, { load [0xA0] {} with pc := 1, steps := 1 }) ∧
      (load [0xA0] {}).run (stepBound 2) =
        (.halted, { load [0xA0] {} with pc := 1, steps := 1, halted := true }) := by
  decide +kernel

theorem run_budget_exact_two :
    (∃ final, (load [0xA0, 0xE2] {}).run (stepBound 0) = (.halted, final) ∧ final.steps = 2 ∧
      (load [0xA0, 0xE2] {}).Terminates final) ∧
    ∃ final, (load [0xA0, 0xA0] {}).run (stepBound 0) = (.halted, final) ∧ final.steps = 2 ∧
      (load [0xA0, 0xA0] {}).RunsOffEnd final := by
  constructor
  · have hrun : (load [0xA0, 0xE2] {}).run (stepBound 0) =
        (.halted, { load [0xA0, 0xE2] {} with pc := 2, steps := 2, halted := true }) := by
      decide +kernel
    obtain ⟨_, hends⟩ := run_budget_exact [0xA0, 0xE2] {} 2 (by decide)
    obtain ⟨_, _, hexact⟩ := hends _ hrun
    rcases hexact rfl with ⟨h, _⟩ | ⟨_, hstopped⟩
    · exact ⟨_, hrun, rfl, h⟩
    · exact absurd hstopped (by decide +kernel)
  · have hrun : (load [0xA0, 0xA0] {}).run (stepBound 0) =
        (.halted, { load [0xA0, 0xA0] {} with pc := 2, steps := 2, halted := true }) := by
      decide +kernel
    obtain ⟨_, hends⟩ := run_budget_exact [0xA0, 0xA0] {} 2 (by decide)
    obtain ⟨_, _, hexact⟩ := hends _ hrun
    rcases hexact rfl with ⟨_, hhalted⟩ | ⟨h, _⟩
    · exact absurd hhalted (by decide +kernel)
    · exact ⟨_, hrun, rfl, h⟩

end Glyph8.Machine
