import Glyph8.Machine.Run
import Glyph8.Proofs.Machine.Later
import Mathlib.Logic.Relation

/-!
# Runs without fuel

A run is defined with fuel, so that it is a function on all machines: a program may go on forever.
But what a run means has nothing to do with fuel, and proofs about runs should not carry it along.

`RunsIn` says what a run is with no reference to fuel: the machine takes steps until it halts, meets
a trap or reaches the bound. It also counts the steps, and has one constructor for each of these
ends and one for a step. A machine has at most one such run (`RunsIn.unique`). A run with more fuel
than the run has steps is the run (`RunsIn.runFor_eq`). With less, it is cut off at a machine on the
way (`runFor_cases`).

`Reaches` forgets the count and the bound: it relates machines that steps without a trap lead to.

For bounded runs the fuel is always enough. Each step but the last counts an instruction, so the
bound is reached after so many steps (`exists_runsIn_bounded`), and fuel plays no role
(`run_bounded`). Runs without a bound are treated elsewhere, since for them it is less clear that
fuel can be enough.
-/

namespace Glyph8.Machine

/-! ## Reachable machines -/

/-- Whether steps without a trap lead from one machine to another. -/
def Reaches : Machine → Machine → Prop := Relation.ReflTransGen fun m next => m.step = (none, next)

theorem Reaches.refl (m : Machine) : m.Reaches m := Relation.ReflTransGen.refl

theorem Reaches.head {m next k : Machine} (hs : m.step = (none, next)) (h : next.Reaches k) :
    m.Reaches k := Relation.ReflTransGen.head hs h

theorem Reaches.later {m k : Machine} (h : m.Reaches k) : ∃ n, Later n m k := by
  induction h with
  | refl => exact ⟨0, .refl m⟩
  | @tail k next _ hs ih =>
    obtain ⟨n, hn⟩ := ih
    obtain ⟨i, _, hi⟩ := later_step k
    rw [hs] at hi
    exact ⟨n + i, hn.trans hi⟩

/-- A halted machine leads nowhere. -/
theorem Reaches.eq_of_halted {m k : Machine} (h : m.Reaches k) (hm : m.halted = true) : k = m := by
  induction h with
  | refl => rfl
  | @tail k next _ hs ih =>
    rw [ih, step_of_halted hm] at hs
    exact (congrArg Prod.snd hs).symm

/-! ## Runs -/

/-- The run of a machine ends after a number of steps, in some way and with some machine. -/
inductive RunsIn (limit : Option Nat) : Nat → Machine → RunEnd → Machine → Prop where
  | halted {m : Machine} (h : m.halted = true) : RunsIn limit 0 m .halted m
  | limit {m : Machine} (h : m.halted = false) (hl : m.atLimit limit = true) :
    RunsIn limit 0 m (.stepLimit m.steps) m
  | trap {m next : Machine} {trap : Trap} (h : m.halted = false) (hl : m.atLimit limit = false)
    (hs : m.step = (some trap, next)) : RunsIn limit 1 m (.trapped trap) next
  | step {m next final : Machine} {n : Nat} {ending : RunEnd} (h : m.halted = false)
    (hl : m.atLimit limit = false) (hs : m.step = (none, next))
    (hr : RunsIn limit n next ending final) : RunsIn limit (n + 1) m ending final

variable {limit : Option Nat} {m next final : Machine} {n fuel : Nat} {ending : RunEnd}

/-- A run that ends is not endless. -/
theorem RunsIn.ne_endless (h : RunsIn limit n m ending final) : ending ≠ .endless := by
  induction h with
  | halted | limit | trap => exact nofun
  | step _ _ _ _ ih => exact ih

/-- A machine that has halted needs no fuel. -/
theorem runFor_of_halted (h : m.halted = true) : m.runFor limit fuel = (.halted, m) := by
  cases fuel with
  | zero => rw [runFor, if_pos h]
  | succ fuel => rw [runFor, if_pos h]

theorem runFor_of_limit (h : m.halted = false) (hl : m.atLimit limit = true) :
    m.runFor limit (fuel + 1) = (.stepLimit m.steps, m) := by
  rw [runFor, if_neg (by rw [h]; decide), if_pos hl]

theorem runFor_of_trap {trap : Trap} (h : m.halted = false) (hl : m.atLimit limit = false)
    (hs : m.step = (some trap, next)) : m.runFor limit (fuel + 1) = (.trapped trap, next) := by
  rw [runFor, if_neg (by rw [h]; decide), if_neg (by rw [hl]; decide), hs]

theorem runFor_of_step (h : m.halted = false) (hl : m.atLimit limit = false)
    (hs : m.step = (none, next)) : m.runFor limit (fuel + 1) = next.runFor limit fuel := by
  rw [runFor, if_neg (by rw [h]; decide), if_neg (by rw [hl]; decide), hs]

/-- Enough fuel is more than the run has steps. -/
theorem RunsIn.runFor_eq (h : RunsIn limit n m ending final) :
    ∀ {fuel : Nat}, n < fuel → m.runFor limit fuel = (ending, final) := by
  induction h with
  | halted h => intro _ _; exact runFor_of_halted h
  | limit h hl =>
    intro fuel hfuel
    obtain ⟨fuel, rfl⟩ := Nat.exists_eq_add_of_lt hfuel
    exact runFor_of_limit h hl
  | trap h hl hs =>
    intro fuel hfuel
    obtain ⟨fuel, rfl⟩ := Nat.exists_eq_add_of_lt hfuel
    exact runFor_of_trap h hl hs
  | step h hl hs _ ih =>
    intro fuel hfuel
    obtain ⟨fuel, rfl⟩ := Nat.exists_eq_add_of_lt hfuel
    rw [runFor_of_step h hl hs]
    exact ih (by omega)

/-- A machine has at most one run. -/
theorem RunsIn.unique {n' : Nat} {ending' : RunEnd} {final' : Machine}
    (h : RunsIn limit n m ending final) (h' : RunsIn limit n' m ending' final') :
    (ending, final) = (ending', final') := by
  have hrun : m.runFor limit (n + n' + 1) = (ending, final) := h.runFor_eq (by omega)
  rw [← hrun]
  exact h'.runFor_eq (by omega)

/-- What fuel buys: the end of the run, or a machine that the run reaches. -/
theorem runFor_cases (limit : Option Nat) :
    ∀ (fuel : Nat) (m : Machine),
      (∃ n ≤ fuel, RunsIn limit n m (m.runFor limit fuel).1 (m.runFor limit fuel).2) ∨
        (m.runFor limit fuel).1 = .endless ∧ m.Reaches (m.runFor limit fuel).2 := by
  intro fuel
  induction fuel with
  | zero =>
    intro m
    cases h : m.halted with
    | true =>
      rw [runFor_of_halted h]
      exact .inl ⟨0, by omega, .halted h⟩
    | false =>
      rw [runFor, if_neg (by rw [h]; decide)]
      exact .inr ⟨rfl, .refl m⟩
  | succ fuel ih =>
    intro m
    cases h : m.halted with
    | true =>
      rw [runFor_of_halted h]
      exact .inl ⟨0, by omega, .halted h⟩
    | false =>
      -- the order of the tests is that of the definition: halted, at the bound, then a step
      cases hl : m.atLimit limit with
      | true =>
        rw [runFor_of_limit h hl]
        exact .inl ⟨0, by omega, .limit h hl⟩
      | false =>
        rcases hs : m.step with ⟨_ | trap, next⟩
        · rw [runFor_of_step h hl hs]
          rcases ih next with ⟨n, hn, hr⟩ | ⟨hend, hreach⟩
          · exact .inl ⟨n + 1, by omega, .step h hl hs hr⟩
          · exact .inr ⟨hend, .head hs hreach⟩
        · rw [runFor_of_trap h hl hs]
          exact .inl ⟨1, by omega, .trap h hl hs⟩

/-- A run reaches its last machine, unless it meets a trap. -/
theorem RunsIn.reaches (h : RunsIn limit n m ending final) :
    (m.Reaches final ∧ ∀ trap, ending ≠ .trapped trap) ∨
      ∃ k trap, m.Reaches k ∧ k.step = (some trap, final) ∧ ending = .trapped trap := by
  induction h with
  | halted | limit =>
    refine .inl ⟨.refl _, ?_⟩
    intro trap htrap
    cases htrap
  | trap _ _ hs => exact .inr ⟨_, _, .refl _, hs, rfl⟩
  | step _ _ hs _ ih =>
    rcases ih with ⟨hreach, hend⟩ | ⟨k, trap, hreach, hk, hend⟩
    · exact .inl ⟨.head hs hreach, hend⟩
    · exact .inr ⟨k, trap, .head hs hreach, hk, hend⟩

/-- Whatever the fuel, the machine that is left is one that steps without a trap lead to, or it is
left by a step with a trap. -/
theorem runFor_reaches (limit : Option Nat) (fuel : Nat) (m : Machine) :
    (m.Reaches (m.runFor limit fuel).2 ∧ ∀ trap, (m.runFor limit fuel).1 ≠ .trapped trap) ∨
      ∃ k trap, m.Reaches k ∧ k.step = (some trap, (m.runFor limit fuel).2) ∧
        (m.runFor limit fuel).1 = .trapped trap := by
  rcases runFor_cases limit fuel m with ⟨n, _, hr⟩ | ⟨hend, hreach⟩
  · exact hr.reaches
  · refine .inl ⟨hreach, ?_⟩
    intro trap htrap
    exact nomatch hend.symm.trans htrap

/-- Every run leaves a machine that is reached, or what a trap has left of one. -/
theorem run_reaches (m : Machine) (limit : Option Nat) :
    (m.Reaches (m.run limit).2 ∧ ∀ trap, (m.run limit).1 ≠ .trapped trap) ∨
      ∃ k trap, m.Reaches k ∧ k.step = (some trap, (m.run limit).2) ∧
        (m.run limit).1 = .trapped trap := runFor_reaches limit (m.fuel limit) m

/-- A run that is not cut off for want of fuel is a run without fuel. -/
theorem exists_runsIn (h : m.run limit = (ending, final)) (hend : ending ≠ .endless) :
    ∃ n, RunsIn limit n m ending final := by
  have hrun : m.runFor limit (m.fuel limit) = (ending, final) := h
  rcases runFor_cases limit (m.fuel limit) m with ⟨n, _, hr⟩ | ⟨hendless, _⟩
  · rw [hrun] at hr
    exact ⟨n, hr⟩
  · rw [hrun] at hendless
    exact absurd hendless hend

theorem exists_fuel (m : Machine) (limit : Option Nat) : ∃ fuel, m.fuel limit = fuel + 1 := by
  cases limit with
  | none => exact ⟨_, rfl⟩
  | some max => exact ⟨_, rfl⟩

theorem run_of_limit (h : m.halted = false) (hl : m.atLimit limit = true) :
    m.run limit = (.stepLimit m.steps, m) := by
  obtain ⟨fuel, hfuel⟩ := m.exists_fuel limit
  unfold run
  rw [hfuel]
  exact runFor_of_limit h hl

/-! ## Bounded runs -/

/-- A bounded run ends, and takes at most one step more than the bound leaves. -/
theorem exists_runsIn_bounded (limit : Nat) :
    ∀ (left : Nat) (m : Machine), limit - m.steps = left →
      ∃ n ending final, n ≤ left + 1 ∧ RunsIn (some limit) n m ending final := by
  intro left
  induction left with
  | zero =>
    intro m hleft
    cases h : m.halted with
    | true => exact ⟨0, _, _, by omega, .halted h⟩
    | false => exact ⟨0, _, _, by omega, .limit h (decide_eq_true (by omega))⟩
  | succ left ih =>
    intro m hleft
    cases h : m.halted with
    | true => exact ⟨0, _, _, by omega, .halted h⟩
    | false =>
      have hl : m.atLimit (some limit) = false := decide_eq_false (by omega)
      cases hw : m.program[m.pc]? with
      | none =>
        -- halting at the end of the program is a step that nothing is counted for
        exact ⟨1, _, _, by omega, .step h hl (step_of_end h hw) (.halted rfl)⟩
      | some w =>
        rcases hs : m.step with ⟨_ | trap, next⟩
        · have hsteps := steps_of_word hs h hw
          obtain ⟨n, ending, final, hn, hr⟩ := ih next (by omega)
          exact ⟨n + 1, ending, final, by omega, .step h hl hs hr⟩
        · exact ⟨1, _, _, by omega, .trap h hl hs⟩

/-- Fuel plays no role in bounded runs. -/
theorem run_bounded {limit : Nat} :
    m.run (some limit) = (ending, final) ↔ ∃ n, RunsIn (some limit) n m ending final := by
  obtain ⟨n, ending', final', hn, hr⟩ := exists_runsIn_bounded limit _ m rfl
  have hrun : m.run (some limit) = (ending', final') := by
    refine hr.runFor_eq ?_
    show n < limit - m.steps + 2
    omega
  rw [hrun]
  constructor
  · intro h
    cases h
    exact ⟨n, hr⟩
  · intro ⟨_, hk⟩
    exact hr.unique hk

end Glyph8.Machine
