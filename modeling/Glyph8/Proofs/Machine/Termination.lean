import Glyph8.Proofs.Machine.Resuming
import Glyph8.Proofs.Machine.Unbounded

/-!
# How soon runs end

A run with a bound ends because each of its steps counts an instruction, but for a last step that
only finds the end of the program. That step too is taken before the bound is reached, so a run
never takes more steps than there are instructions left (`run_within_budget`). The bound counts the
instructions of earlier calls too; if it is used up already, the run takes no step.

A run without a bound need not end. It does if no jump of the program goes back or stays where it
is. Then the program counter only ever increases (`OnlyForward.pc_lt`). Since it stays in the
program, what is left of the program is a measure on which the run ends
(`OnlyForward.exists_runsIn`).

More can be said of such programs. `executed` lists the indices of the instructions that a number of
steps executes. They are counted one by one (`steps_iterate`), and in a program that only goes
forward they are some of the indices of the program, in their order (`RunsIn.executed_sublist`). So
no instruction is executed twice, which is `forward_program_ends`.

The condition is about words alone, so it can be read off an executable. It is not necessary: a loop
that reads input ends with it.
-/

namespace Glyph8

/-- Only a machine that has halted ends without an error. -/
theorem RunEnd.error?_eq_none_iff {ending : RunEnd} : ending.error? = none ↔ ending = .halted := by
  cases ending with
  | halted => exact ⟨fun _ => rfl, fun _ => rfl⟩
  | stepLimit | trapped | endless => exact ⟨nofun, nofun⟩

namespace Machine

variable {m next final : Machine} {limit : Option Nat} {n : Nat} {ending : RunEnd} {w : Word}

/-! ## Ends of runs -/

/-- A run ends well if and only if it leaves a machine that has halted. -/
theorem RunsIn.halted_iff (h : RunsIn limit n m ending final) :
    ending = .halted ↔ final.halted = true := by
  induction h with
  | halted h => exact ⟨fun _ => h, fun _ => rfl⟩
  | limit h =>
    rw [h]
    exact ⟨nofun, nofun⟩
  | trap h _ hs =>
    rw [(intact_of_step hs).halted, h]
    exact ⟨nofun, nofun⟩
  | step _ _ _ _ ih => exact ih

/-- A run leaves the machine after its steps, also after one that fails. -/
theorem RunsIn.final_eq (h : RunsIn limit n m ending final) : final = stepped^[n] m := by
  induction h with
  | halted | limit => rfl
  | @trap m next trap _ _ hs =>
    show next = m.step.2
    rw [hs]
  | @step m next final n ending _ _ hs _ ih =>
    rw [Function.iterate_succ_apply, stepped, hs]
    exact ih

/-- Without a bound, a run ends with a halted machine or with a trap. -/
theorem RunsIn.halts_or_traps (h : RunsIn none n m ending final) :
    ending = .halted ∨ ∃ trap, ending = .trapped trap := by
  induction h with
  | halted => exact .inl rfl
  | limit _ hl => cases hl
  | trap => exact .inr ⟨_, rfl⟩
  | step _ _ _ _ ih => exact ih

theorem RunsIn.length_of_halted (h : RunsIn limit n m ending final) (hm : m.halted = true) :
    n = 0 := by
  cases h with
  | halted | limit => rfl
  | trap hfalse | step hfalse => cases hm.symm.trans hfalse

/-! ## Bounded runs -/

/-- Each step is taken before the bound is reached, and brings it nearer or is the last. -/
theorem RunsIn.length_le_budget {bound : Nat} (h : RunsIn (some bound) n m ending final) :
    n ≤ bound - m.steps := by
  induction h with
  | halted | limit => exact Nat.zero_le _
  | @trap m next _ _ hl =>
    have hlt : ¬bound ≤ m.steps := of_decide_eq_false hl
    omega
  | @step m next final n ending h hl hs hr ih =>
    have hlt : ¬bound ≤ m.steps := of_decide_eq_false hl
    cases hw : m.program[m.pc]? with
    | none =>
      -- the machine halts without counting, and there is no further step
      have hnext : next.halted = true := by
        rw [step_of_end h hw] at hs
        rw [← (Prod.mk.inj hs).2]
      have hn := hr.length_of_halted hnext
      omega
    | some w =>
      have hsteps := steps_of_word hs h hw
      omega

/-- No instruction is executed past the bound. -/
theorem RunsIn.steps_le {bound : Nat} (h : RunsIn (some bound) n m ending final) :
    final.steps ≤ max m.steps bound := by
  induction h with
  | halted | limit => exact Nat.le_max_left _ _
  | @trap m next _ _ hl hs =>
    have hlt : ¬bound ≤ m.steps := of_decide_eq_false hl
    have hnext := steps_le_of_step hs
    omega
  | @step m next _ _ _ _ hl hs _ ih =>
    have hlt : ¬bound ≤ m.steps := of_decide_eq_false hl
    have hnext := steps_le_of_step hs
    omega

/-- A run with a bound ends, whatever the machine has executed before. It takes at most as many
steps as there are instructions left before the bound, it executes none past the bound, and it
reports no error if and only if the machine has halted. -/
theorem run_within_budget (m : Machine) (bound : Int) (hbound : 0 < bound) :
    ∃ n ending final, m.run (stepBound bound) = (ending, final) ∧
      RunsIn (stepBound bound) n m ending final ∧ ending ≠ .endless ∧ final = stepped^[n] m ∧
      (n : Int) ≤ max 0 (bound - m.steps) ∧
      (final.steps : Int) ≤ max (m.steps : Int) bound ∧
      (ending.error? = none ↔ final.halted = true) := by
  have hlimit : stepBound bound = some bound.toNat := if_pos hbound
  rw [hlimit]
  obtain ⟨n, ending, final, _, hr⟩ := exists_runsIn_bounded bound.toNat _ m rfl
  have hn := hr.length_le_budget
  have hsteps := hr.steps_le
  refine ⟨n, ending, final, run_bounded.mpr ⟨n, hr⟩, hr, hr.ne_endless, hr.final_eq, ?_, ?_, ?_⟩
  · omega
  · omega
  · rw [RunEnd.error?_eq_none_iff]
    exact hr.halted_iff

/-- An endless loop that an earlier run has taken past the bound, and a program that takes a second
step to find its end. -/
theorem run_within_budget_each :
    let looping := (load [0xC0] {}).after [.run 5]
    let short := load [0xA0] {}
    (looping.steps = 5 ∧ ∃ n ending final, looping.run (stepBound 3) = (ending, final) ∧
      RunsIn (stepBound 3) n looping ending final ∧ n = 0 ∧ final.steps ≤ 5) ∧
    ∃ n ending final, short.run (stepBound 2) = (ending, final) ∧
      RunsIn (stepBound 2) n short ending final ∧ n ≤ 2 ∧ final.steps ≤ 2 ∧
      (ending.error? = none ↔ final.halted = true) := by
  intro looping short
  have hlooping : looping.steps = 5 := by decide +kernel
  have hshort : short.steps = 0 := rfl
  constructor
  · obtain ⟨n, ending, final, hrun, hr, _, _, hn, hsteps, _⟩ :=
      run_within_budget looping 3 (by decide)
    rw [hlooping] at hn hsteps
    exact ⟨hlooping, n, ending, final, hrun, hr, by omega, by omega⟩
  · obtain ⟨n, ending, final, hrun, hr, _, _, hn, hsteps, hend⟩ :=
      run_within_budget short 2 (by decide)
    rw [hshort] at hn hsteps
    exact ⟨n, ending, final, hrun, hr, by omega, by omega, hend⟩

/-! ## Executed instructions -/

/-- The index of the instruction that the next step executes, if it executes one. -/
def fetches? (m : Machine) : Option Nat :=
  if m.halted = false ∧ m.pc < m.program.size then some m.pc else none

/-- The indices of the instructions that a number of steps execute, in the order of execution. -/
def executed : Nat → Machine → List Nat
  | 0, _ => []
  | n + 1, m => m.fetches?.toList ++ executed n m.stepped

theorem fetches?_of_word (h : m.halted = false) (hw : m.program[m.pc]? = some w) :
    m.fetches? = some m.pc :=
  if_pos ⟨h, (Array.getElem?_eq_some_iff.mp hw).1⟩

theorem fetches?_of_end (hw : m.program[m.pc]? = none) : m.fetches? = none := by
  refine if_neg ?_
  rintro ⟨_, hpc⟩
  have hle := Array.getElem?_eq_none_iff.mp hw
  omega

/-- A step counts the instruction that it executes. -/
theorem steps_stepped (m : Machine) : m.stepped.steps = m.steps + m.fetches?.toList.length := by
  unfold stepped
  cases hm : m.halted with
  | true =>
    have hnone : m.fetches? = none := by
      refine if_neg ?_
      intro h
      cases hm.symm.trans h.1
    rw [step_of_halted hm, hnone]
    rfl
  | false =>
    cases hw : m.program[m.pc]? with
    | none =>
      rw [step_of_end hm hw, fetches?_of_end hw]
      rfl
    | some w =>
      rw [fetches?_of_word hm hw]
      exact (later_step_of_word hm hw).steps

/-- Each executed instruction is counted once. -/
theorem steps_iterate (n : Nat) :
    ∀ m : Machine, (stepped^[n] m).steps = m.steps + (executed n m).length := by
  induction n with
  | zero => intro m; rfl
  | succ n ih =>
    intro m
    rw [Function.iterate_succ_apply, ih, steps_stepped, executed, List.length_append,
      Nat.add_assoc]

end Machine

/-! ## Programs that only go forward -/

/-- Whether an instruction does not lead back: a jump leads to a later instruction. -/
def Instruction.goesForward : Instruction → Bool
  | .jump d => 1 ≤ d.val
  | _ => true

namespace Machine

variable {m next final : Machine} {limit : Option Nat} {n : Nat} {ending : RunEnd} {w : Word}

/-- An instruction that does not lead back goes on to a later one. -/
theorem Executes.pc_lt {i : Instruction} (h : m.Executes i next) (hi : i.goesForward = true)
    (hpc : m.pc < m.program.size) : m.pc < next.pc := by
  cases h with
  | assign | proceed | print | read | terminate => exact Nat.lt_succ_self m.pc
  | skip =>
    show m.pc < min (m.pc + 2) m.program.size
    omega
  | @jump d target htarget =>
    have hd : 1 ≤ d.val := of_decide_eq_true hi
    show m.pc < target
    omega

/-- No instruction of the machine's program leads back. -/
def OnlyForward (m : Machine) : Prop := ∀ w ∈ m.program, (Word.decode w).goesForward = true

theorem OnlyForward.step (h : m.OnlyForward) : m.step.2.OnlyForward := by
  unfold OnlyForward
  rw [step_program]
  exact h

/-- In a program that only goes forward, every step that succeeds does. -/
theorem OnlyForward.pc_lt (h : m.OnlyForward) (hm : m.halted = false)
    (hw : m.program[m.pc]? = some w) (hs : m.step = (none, next)) : m.pc < next.pc :=
  ((step_eq_none_iff hm hw).mp hs).pc_lt (h w (Array.mem_of_getElem? hw))
    (Array.getElem?_eq_some_iff.mp hw).1

/-- The indices from one position on are among those from an earlier one on. -/
theorem range'_sublist {a b size : Nat} (h : a ≤ b) :
    (List.range' b (size - b)).Sublist (List.range' a (size - a)) := by
  by_cases hb : b ≤ size
  · have hsplit := @List.range'_append_1 a (b - a) (size - b)
    rw [show a + (b - a) = b by omega, show b - a + (size - b) = size - a by omega] at hsplit
    rw [← hsplit]
    exact List.sublist_append_right _ _
  · rw [show size - b = 0 by omega]
    exact List.nil_sublist _

/-- The executed instructions are some of those from the program counter on, in the order of the
program. -/
theorem RunsIn.executed_sublist (h : RunsIn limit n m ending final) (hm : m.OnlyForward) :
    (executed n m).Sublist (List.range' m.pc (m.program.size - m.pc)) := by
  have hhead : ∀ {k : Machine} {w : Word}, k.program[k.pc]? = some w →
      List.range' k.pc (k.program.size - k.pc) =
        k.pc :: List.range' (k.pc + 1) (k.program.size - (k.pc + 1)) := by
    intro k w hw
    have hpc := (Array.getElem?_eq_some_iff.mp hw).1
    rw [show k.program.size - k.pc = k.program.size - (k.pc + 1) + 1 by omega, List.range'_succ]
  induction h with
  | halted | limit => exact List.nil_sublist _
  | @trap m next trap h _ hs =>
    obtain ⟨_, w, hw⟩ := exists_word_of_trap (congrArg Prod.fst hs)
    rw [executed, executed, fetches?_of_word h hw, hhead hw]
    exact List.cons_sublist_cons.mpr (List.nil_sublist _)
  | @step m next final n ending h _ hs _ ih =>
    have hnext : m.stepped = next := congrArg Prod.snd hs
    have hforward : next.OnlyForward := hnext ▸ hm.step
    have hprogram : next.program = m.program := hnext ▸ step_program m
    have hrest := ih hforward
    rw [hprogram] at hrest
    rw [executed, hnext]
    cases hw : m.program[m.pc]? with
    | none =>
      -- the machine halts where it is
      have hpc : next.pc = m.pc := by rw [← hnext, stepped, step_of_end h hw]
      rw [fetches?_of_end hw]
      exact hpc ▸ hrest
    | some w =>
      have hlt := hm.pc_lt h hw hs
      rw [fetches?_of_word h hw, hhead hw]
      exact List.cons_sublist_cons.mpr (hrest.trans (range'_sublist hlt))

/-- The program counter is a measure: what is left of the program gets less. -/
theorem OnlyForward.exists_runsIn :
    ∀ (left : Nat) {m : Machine}, m.program.size - m.pc = left → m.OnlyForward →
      ∃ n ending final, RunsIn none n m ending final := by
  intro left
  induction left using Nat.strong_induction_on with
  | _ left ih =>
    intro m hleft hm
    cases h : m.halted with
    | true => exact ⟨0, _, _, .halted h⟩
    | false =>
      cases hw : m.program[m.pc]? with
      | none => exact ⟨1, _, _, .step h rfl (step_of_end h hw) (.halted rfl)⟩
      | some w =>
        rcases hs : m.step with ⟨_ | trap, next⟩
        · have hpc := (Array.getElem?_eq_some_iff.mp hw).1
          -- a step goes forward, so less of the program is left
          have hlt := hm.pc_lt h hw hs
          have hnext : m.step.2 = next := congrArg Prod.snd hs
          have hprogram : next.program = m.program := hnext ▸ step_program m
          obtain ⟨n, ending, final, hr⟩ :=
            ih (next.program.size - next.pc) (by rw [hprogram]; omega) rfl (hnext ▸ hm.step)
          exact ⟨n + 1, ending, final, .step h rfl hs hr⟩
        · exact ⟨1, _, _, .trap h rfl hs⟩

/-- A program in which every jump leads to a later instruction ends on every console, by halting or
with a trap. The instructions it has executed, as many as it has counted, are some of the program's
in their order, so none is executed twice. -/
theorem forward_program_ends (program : List Word) (console : Console)
    (hforward : ∀ w ∈ program, (Word.decode w).goesForward = true) :
    let m := load program console
    ∃ n ending final, m.run (stepBound 0) = (ending, final) ∧
      RunsIn (stepBound 0) n m ending final ∧
      (ending = .halted ∨ ∃ trap, ending = .trapped trap) ∧
      final.steps = (executed n m).length ∧ final.steps ≤ program.length ∧
      (executed n m).Sublist (List.range program.length) ∧ ∀ i, (executed n m).count i ≤ 1 := by
  intro m
  have hm : m.OnlyForward := fun w hw => hforward w (List.mem_toArray.mp hw)
  obtain ⟨n, ending, final, hr⟩ := OnlyForward.exists_runsIn _ rfl hm
  have hsublist : (executed n m).Sublist (List.range program.length) := by
    rw [List.range_eq_range']
    exact hr.executed_sublist hm
  have hsteps : final.steps = (executed n m).length := by
    rw [hr.final_eq, steps_iterate]
    exact Nat.zero_add _
  refine ⟨n, ending, final, (run_unbounded hr.ne_endless).mpr ⟨n, hr⟩, hr, hr.halts_or_traps,
    hsteps, ?_, hsublist, ?_⟩
  · rw [hsteps]
    exact hsublist.length_le.trans_eq List.length_range
  · exact List.nodup_iff_count_le_one.mp (List.nodup_range.sublist hsublist)

/-- A jump over an instruction, a comparison that skips to the end, and a read that fails. -/
theorem forward_program_ends_skipping :
    let program : List Word := [0xC2, 0xA0, 0xE1, 0x41]
    (∀ w ∈ program, (Word.decode w).goesForward = true) ∧
    (∃ n ending final, (load program { input := utf8 "7" }).run (stepBound 0) = (ending, final) ∧
      RunsIn (stepBound 0) n (load program { input := utf8 "7" }) ending final ∧
      final.steps ≤ 4 ∧ ∀ i, (executed n (load program { input := utf8 "7" })).count i ≤ 1) ∧
    ∃ n ending final, (load program {}).run (stepBound 0) = (ending, final) ∧
      RunsIn (stepBound 0) n (load program {}) ending final ∧
      final.steps ≤ 4 ∧ ∀ i, (executed n (load program {})).count i ≤ 1 := by
  intro program
  have hforward : ∀ w ∈ program, (Word.decode w).goesForward = true := by
    decide +kernel
  obtain ⟨n, ending, final, hrun, hr, _, _, hsteps, _, hcount⟩ :=
    forward_program_ends program { input := utf8 "7" } hforward
  obtain ⟨n', ending', final', hrun', hr', _, _, hsteps', _, hcount'⟩ :=
    forward_program_ends program {} hforward
  exact ⟨hforward, ⟨n, ending, final, hrun, hr, hsteps, hcount⟩,
    n', ending', final', hrun', hr', hsteps', hcount'⟩

end Machine

end Glyph8
