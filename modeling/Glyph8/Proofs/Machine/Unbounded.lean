import Glyph8.Proofs.Machine.Alike
import Mathlib.Data.Fintype.Card
import Mathlib.Data.Fintype.Prod
import Mathlib.Tactic.Ring

/-!
# Runs without a bound

A run without a bound has fuel for as many steps as the machine has states, and one more. If it is
then not at its end, it is said to be endless. That this answer is right has to be proved, since a
machine that has taken many steps need not go on forever.

The state of a machine in a run is finite. There are four registers of a byte, a position in the
program, the input that is left, which is an end of the input at the start, and the room for output
that is left. What a machine does next depends on these only, and not on what it has counted and
printed. That is the relation `Alike` without its second part (`alike_of_stateIn_eq`).

Two machines of one run are never alike, because machines that are alike have equally many steps to
go (`RunsIn.length_eq`). So a run that ends passes through different states, and has no more steps
than there are states (`RunsIn.length_le`). The argument is the pigeonhole principle, on the states
of the machines with each number of steps to go (`RunsIn.suffix`).

Hence a run that ends does so within the fuel (`run_unbounded`), and the answer that a machine never
ends is right (`run_endless_iff`). The number of states is astronomical, but nothing is computed
with it in a proof.
-/

namespace Glyph8

/-! ## What a state determines -/

theorem Registers.eq_of_toFin_eq {rs ss : Registers} (h1 : rs.r1.toFin = ss.r1.toFin)
    (h2 : rs.r2.toFin = ss.r2.toFin) (h3 : rs.r3.toFin = ss.r3.toFin)
    (h4 : rs.r4.toFin = ss.r4.toFin) : rs = ss := by
  cases rs
  cases ss
  rw [Registers.mk.injEq]
  exact ⟨UInt8.toFin_inj.mp h1, UInt8.toFin_inj.mp h2, UInt8.toFin_inj.mp h3, UInt8.toFin_inj.mp h4⟩

/-- What has become of a console is determined by how much input and room is left. -/
theorem Console.Later.alike {c d e : Console} (hd : c.Later d) (he : c.Later e)
    (hinput : d.input.length = e.input.length)
    (hroom : d.output.room.getD 0 = e.output.room.getD 0) : d.Alike False e where
  input := (List.suffix_of_suffix_length_le hd.input he.input hinput.le).eq_of_length hinput
  failure := hd.failure.trans he.failure.symm
  interactive := hd.interactive.trans he.interactive.symm
  output := by
    obtain ⟨s, hs⟩ := hd.room
    obtain ⟨t, ht⟩ := he.room
    refine ⟨?_, nofun⟩
    rw [hs, ht] at hroom ⊢
    cases hc : c.output.room with
    | none => rfl
    | some n =>
      rw [hc] at hroom
      exact congrArg some hroom

namespace Machine

/-! ## Steps to go -/

variable {m a b final : Machine} {n : Nat} {ending : RunEnd}

/-- Machines that are alike have equally many steps to go. -/
theorem RunsIn.length_eq (h : RunsIn none n a ending final) :
    ∀ {n' : Nat} {b final' : Machine} {ending' : RunEnd}, RunsIn none n' b ending' final' →
      Alike False a b → n = n' := by
  -- along the run of `a`; where the run of `b` goes on differently, the two are not alike
  induction h with
  | halted ha =>
    intro n' b final' ending' h' hab
    have hb := hab.halted.symm.trans ha
    cases h' with
    | halted | limit => rfl
    | trap hb' | step hb' => rw [hb'] at hb; cases hb
  | limit _ hl => cases hl
  | trap ha _ hs =>
    intro n' b final' ending' h' hab
    have hb := hab.halted.symm.trans ha
    have hstep := hab.step.1
    rw [hs] at hstep
    cases h' with
    | halted hb' => rw [hb'] at hb; cases hb
    | limit _ hl => cases hl
    | trap => rfl
    | step _ _ hs' => rw [hs'] at hstep; cases hstep
  | step ha _ hs _ ih =>
    intro n' b final' ending' h' hab
    have hb := hab.halted.symm.trans ha
    obtain ⟨hstep, hafter⟩ := hab.step
    rw [hs] at hstep hafter
    cases h' with
    | halted hb' => rw [hb'] at hb; cases hb
    | limit _ hl => cases hl
    | trap _ _ hs' => rw [hs'] at hstep; cases hstep
    | step _ _ hs' hr' =>
      rw [hs'] at hafter
      exact congrArg (· + 1) (ih hr' hafter)

/-- A run passes, for every smaller number of steps, a machine with so many steps to go. -/
theorem RunsIn.suffix (h : RunsIn none n m ending final) :
    ∀ j < n, ∃ k, m.Reaches k ∧ k.halted = false ∧ RunsIn none (j + 1) k ending final := by
  induction h with
  | halted | limit =>
    intro j hj
    omega
  | trap h hl hs =>
    intro j hj
    rw [show j = 0 by omega]
    exact ⟨_, .refl _, h, .trap h hl hs⟩
  | @step m next final n ending h hl hs hr ih =>
    intro j hj
    by_cases hlast : j = n
    · exact ⟨m, .refl m, h, hlast ▸ .step h hl hs hr⟩
    · obtain ⟨k, hreach, hk⟩ := ih j (by omega)
      exact ⟨k, .head hs hreach, hk⟩

/-! ## Counting states -/

/-- The states of the machines that a run from `m` can reach. -/
abbrev State (m : Machine) : Type :=
  (Fin 256 × Fin 256 × Fin 256 × Fin 256) × Fin (m.program.size + 1) ×
    Fin (m.console.input.length + 1) × Fin (m.console.output.room.getD 0 + 1)

/-- The state of a machine in a run from `m`. -/
def stateIn (m k : Machine) : m.State :=
  ((k.registers.r1.toFin, k.registers.r2.toFin, k.registers.r3.toFin, k.registers.r4.toFin),
    Fin.ofNat _ k.pc, Fin.ofNat _ k.console.input.length,
    Fin.ofNat _ (k.console.output.room.getD 0))

/-- The states are counted as the fuel is, but for the machines that have halted. -/
theorem card_state (m : Machine) : 2 * Fintype.card m.State = m.stateCount := by
  simp only [State, Fintype.card_prod, Fintype.card_fin, stateCount]
  rw [show Nat.pow 256 4 = 256 * (256 * (256 * 256)) from rfl]
  ring

theorem eq_of_ofNat_eq {n i j : Nat} (h : Fin.ofNat (n + 1) i = Fin.ofNat (n + 1) j)
    (hi : i ≤ n) (hj : j ≤ n) : i = j := by
  have h := congrArg Fin.val h
  rwa [Fin.val_ofNat, Fin.val_ofNat, Nat.mod_eq_of_lt (by omega), Nat.mod_eq_of_lt (by omega)] at h

/-- Machines of one run with the same state are alike. -/
theorem alike_of_stateIn_eq {i j : Nat} (hpc : m.pc ≤ m.program.size) (ha : Later i m a)
    (hb : Later j m b) (hhalted : a.halted = b.halted) (h : m.stateIn a = m.stateIn b) :
    Alike False a b := by
  simp only [stateIn, Prod.mk.injEq] at h
  obtain ⟨⟨h1, h2, h3, h4⟩, hpos, hinput, hroom⟩ := h
  have hpa := ha.pc_le hpc
  have hpb := hb.pc_le hpc
  rw [ha.program] at hpa
  rw [hb.program] at hpb
  -- room that is not limited counts as none, and stays so
  have hroom_le : ∀ {c : Console}, m.console.Later c →
      c.output.room.getD 0 ≤ m.console.output.room.getD 0 := by
    intro c hc
    obtain ⟨spent, hspent⟩ := hc.room
    rw [hspent]
    cases m.console.output.room with
    | none => exact Nat.le_refl 0
    | some r => exact Nat.sub_le r spent
  refine ⟨by rw [ha.program, hb.program], ?_, eq_of_ofNat_eq hpos hpa hpb, hhalted, ?_, nofun⟩
  · exact Registers.eq_of_toFin_eq h1 h2 h3 h4
  · exact ha.console.alike hb.console
      (eq_of_ofNat_eq hinput ha.console.input.length_le hb.console.input.length_le)
      (eq_of_ofNat_eq hroom (hroom_le ha.console) (hroom_le hb.console))

/-- A run that ends has fewer steps than the machine has states. -/
theorem RunsIn.length_le (h : RunsIn none n m ending final) : n ≤ m.stateCount := by
  by_cases hpc : m.pc ≤ m.program.size
  · -- for each number of steps to go there is a machine, and no two are in the same state
    choose k hreach hhalted hruns using h.suffix
    have hinj : Function.Injective fun j : Fin n => m.stateIn (k j j.isLt) := by
      intro i j hij
      obtain ⟨_, hi⟩ := (hreach i i.isLt).later
      obtain ⟨_, hj⟩ := (hreach j j.isLt).later
      have halike := alike_of_stateIn_eq hpc hi hj
        ((hhalted i i.isLt).trans (hhalted j j.isLt).symm) hij
      have hlength := (hruns i i.isLt).length_eq (hruns j j.isLt) halike
      exact Fin.ext (by omega)
    have hcard := Fintype.card_le_of_injective _ hinj
    rw [Fintype.card_fin] at hcard
    have hstates := card_state m
    omega
  · -- past the end of the program there is nothing to do but to halt
    have hpos : 0 < Fintype.card m.State := Fintype.card_pos_iff.mpr ⟨m.stateIn m⟩
    have hcard := card_state m
    have hend : m.program[m.pc]? = none := Array.getElem?_eq_none (by omega)
    cases h with
    | halted | limit | trap => omega
    | step hhalted _ hs hr =>
      rw [step_of_end hhalted hend] at hs
      rw [← (Prod.mk.inj hs).2] at hr
      cases hr with
      | halted => omega
      | limit hfalse | trap hfalse | step hfalse => cases hfalse

/-! ## Enough fuel -/

/-- Fuel plays no role in a run that ends. -/
theorem run_unbounded (hend : ending ≠ .endless) :
    m.run none = (ending, final) ↔ ∃ n, RunsIn none n m ending final := by
  constructor
  · intro h
    exact exists_runsIn h hend
  · intro ⟨n, hr⟩
    have hlt : n < m.fuel none := Nat.lt_succ_of_le hr.length_le
    exact hr.runFor_eq hlt

/-- A run is said to be endless if and only if no number of steps ends it. -/
theorem run_endless_iff :
    (m.run none).1 = .endless ↔ ∀ n ending final, ¬RunsIn none n m ending final := by
  constructor
  · intro h n ending final hr
    rw [(run_unbounded hr.ne_endless).mpr ⟨n, hr⟩] at h
    exact hr.ne_endless h
  · intro h
    rcases runFor_cases none (m.fuel none) m with ⟨n, _, hr⟩ | ⟨hendless, _⟩
    · exact absurd hr (h _ _ _)
    · exact hendless

end Machine

end Glyph8
