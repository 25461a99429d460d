import Glyph8.Proofs.Machine.Session

/-!
# Machines with the same future

What a machine does next depends on its registers, program counter, input and room for output, and
on its program only through the instructions that the words decode to. It does not depend on what
the machine has done so far: how many instructions it has executed, and what it has printed.

`Alike` relates machines that agree on all of the former. It has a parameter that says whether they
agree on the latter as well. Without it, the relation is the right one for states that come again: a
machine that has returned to an earlier state has counted and printed more. With it, the relation is
the right one for comparing two programs.

One relation serves both, since a step treats the two parts of a state separately. It is defined for
sinks, consoles and machines, and for each operation on these one lemma says that it keeps them
alike and has the same result, up to `Alike.step`.

A run may have a bound on executed instructions. So runs, calls and sessions are alike only for
machines that agree on everything, and then the states after them are equal but for the spelling of
the program (`eq_setProgram`). The main result is `Alike.session`.
-/

namespace Glyph8

/-! ## Sinks -/

/-- Sinks with the same room and, if `full` holds, with the same contents. -/
structure Sink.Alike (full : Prop) (s t : Sink) : Prop where
  room : s.room = t.room
  writes : full → s.writes = t.writes

namespace Sink.Alike

variable {full : Prop} {s t : Sink}

theorem fits (h : Alike full s t) (text : Text) : s.fits text = t.fits text := by
  unfold Sink.fits
  rw [h.room]

theorem push (h : Alike full s t) (text : Text) : Alike full (s.push text) (t.push text) where
  room := congrArg (Option.map (· - text.length)) h.room
  writes hfull := congrArg (text :: ·) (h.writes hfull)

/-- A text is taken by both sinks or by neither. -/
theorem offer (h : Alike full s t) (text : Text) : Alike full (s.offer text) (t.offer text) := by
  unfold Sink.offer Sink.write?
  rw [h.fits text]
  by_cases hfits : t.fits text = true
  · rw [if_pos hfits, if_pos hfits]
    exact h.push text
  · rw [if_neg hfits, if_neg hfits]
    exact h

theorem eq (h : Alike True s t) : s = t := by
  cases s
  cases t
  rw [Sink.mk.injEq]
  exact ⟨h.room, h.writes trivial⟩

end Sink.Alike

/-! ## Consoles -/

/-- Consoles with the same input and the same room for output and, if `full` holds, with the same
output. -/
structure Console.Alike (full : Prop) (c d : Console) : Prop where
  input : c.input = d.input
  failure : c.failure = d.failure
  interactive : c.interactive = d.interactive
  output : c.output.Alike full d.output

namespace Console.Alike

variable {full : Prop} {c d : Console}

theorem prompt (h : Alike full c d) : Alike full c.prompt d.prompt := by
  have hinteractive := h.interactive
  unfold Console.prompt
  by_cases hprompt : d.interactive = true
  · rw [if_pos hprompt, if_pos (hinteractive.trans hprompt)]
    exact ⟨h.input, h.failure, h.interactive, h.output.offer promptText⟩
  · rw [if_neg hprompt, if_neg (hinteractive ▸ hprompt)]
    exact h

theorem takeLine (h : Alike full c d) :
    c.takeLine.1 = d.takeLine.1 ∧ Alike full c.takeLine.2 d.takeLine.2 := by
  unfold Console.takeLine
  rw [h.input]
  rcases d.input.span (· != Text.newline) with ⟨line, _ | ⟨_, rest⟩⟩
  · have hafter : Alike full { c with input := [] } { d with input := [] } :=
      ⟨rfl, h.failure, h.interactive, h.output⟩
    have hfailure := h.failure
    cases hd : d.failure <;> rw [hd] at hfailure <;> simp only [hd, hfailure] at hafter ⊢
    · exact ⟨trivial, hafter⟩
    · exact ⟨trivial, hafter⟩
  · exact ⟨rfl, rfl, h.failure, h.interactive, h.output⟩

/-- A read has the same result, and leaves consoles that are alike. -/
theorem read (h : Alike full c d) : c.read.1 = d.read.1 ∧ Alike full c.read.2 d.read.2 := by
  obtain ⟨hline, hafter⟩ := h.prompt.takeLine
  exact ⟨congrArg (Except.bind · value) hline, hafter⟩

/-- A print succeeds on both or fails on both. -/
theorem print (h : Alike full c d) (v : UInt8) :
    (c.print v).1 = (d.print v).1 ∧ Alike full (c.print v).2 (d.print v).2 := by
  unfold Console.print Sink.write?
  rw [h.output.fits]
  by_cases hfits : d.output.fits (printed v) = true
  · rw [if_pos hfits, if_pos hfits]
    exact ⟨rfl, { h with output := h.output.push _ }⟩
  · rw [if_neg hfits, if_neg hfits]
    exact ⟨rfl, h⟩

theorem eq (h : Alike True c d) : c = d := by
  cases c
  cases d
  rw [Console.mk.injEq]
  exact ⟨h.input, h.failure, h.output.eq, h.interactive⟩

end Console.Alike

/-! ## Steps -/

namespace Machine

/-- Machines that run the same instructions and are in the same state. If `full` holds, they have
also executed as many instructions and printed the same. -/
structure Alike (full : Prop) (a b : Machine) : Prop where
  program : a.program.map Word.decode = b.program.map Word.decode
  registers : a.registers = b.registers
  pc : a.pc = b.pc
  halted : a.halted = b.halted
  console : a.console.Alike full b.console
  steps : full → a.steps = b.steps

namespace Alike

variable {full : Prop} {a b : Machine}

theorem size_eq (h : Alike full a b) : a.program.size = b.program.size := by
  have := congrArg Array.size h.program
  rwa [Array.size_map, Array.size_map] at this

/-- The next instruction is the same, however it is spelled. -/
theorem fetch_eq (h : Alike full a b) :
    a.program[a.pc]?.map Word.decode = b.program[b.pc]?.map Word.decode := by
  rw [← Array.getElem?_map, ← Array.getElem?_map, h.program, h.pc]

theorem setRegisters (h : Alike full a b) (rs : Registers) :
    Alike full { a with registers := rs } { b with registers := rs } :=
  ⟨h.program, rfl, h.pc, h.halted, h.console, h.steps⟩

theorem setPc (h : Alike full a b) (pc : Nat) :
    Alike full { a with pc := pc } { b with pc := pc } :=
  ⟨h.program, h.registers, rfl, h.halted, h.console, h.steps⟩

theorem halt (h : Alike full a b) :
    Alike full { a with halted := true } { b with halted := true } :=
  ⟨h.program, h.registers, h.pc, rfl, h.console, h.steps⟩

theorem setConsole (h : Alike full a b) {c d : Console} (hcd : c.Alike full d) :
    Alike full { a with console := c } { b with console := d } :=
  ⟨h.program, h.registers, h.pc, h.halted, hcd, h.steps⟩

theorem counted (h : Alike full a b) : Alike full a.counted b.counted :=
  ⟨h.program, h.registers, h.pc, h.halted, h.console,
    fun hfull => congrArg (· + 1) (h.steps hfull)⟩

theorem advance (h : Alike full a b) (n : Nat) : Alike full (a.advance n) (b.advance n) := by
  have hpc : min (a.pc + n) a.program.size = min (b.pc + n) b.program.size := by
    rw [h.pc, h.size_eq]
  unfold Machine.advance
  rw [hpc]
  exact h.setPc _

theorem assign (h : Alike full a b) (r : Register) (v : UInt8) :
    Alike full (a.assign r v) (b.assign r v) := by
  unfold Machine.assign
  rw [h.registers]
  exact (h.setRegisters _).advance 1

theorem service (h : Alike full a b) (id : Fin 4) :
    (a.service id).1 = (b.service id).1 ∧ Alike full (a.service id).2 (b.service id).2 := by
  unfold Machine.service
  split
  · obtain ⟨hresult, hafter⟩ := h.console.print b.registers.r1
    rw [show a.registers.r1 = b.registers.r1 by rw [h.registers]]
    -- of the four ways in which two consoles can answer, two do not agree
    rcases hc : a.console.print b.registers.r1 with ⟨e | _, c⟩ <;>
      rcases hd : b.console.print b.registers.r1 with ⟨e' | _, d⟩ <;>
        rw [hc, hd] at hresult hafter
    · exact ⟨congrArg (some <| TrapCause.console ·) (Except.error.inj hresult), h.setConsole hafter⟩
    · cases hresult
    · cases hresult
    · exact ⟨rfl, (h.setConsole hafter).advance 1⟩
  · obtain ⟨hresult, hafter⟩ := h.console.read
    rcases hc : a.console.read with ⟨e | v, c⟩ <;>
      rcases hd : b.console.read with ⟨e' | w, d⟩ <;>
        rw [hc, hd] at hresult hafter
    · exact ⟨congrArg (some <| TrapCause.console ·) (Except.error.inj hresult), h.setConsole hafter⟩
    · cases hresult
    · cases hresult
    · rw [Except.ok.inj hresult]
      exact ⟨rfl, (h.setConsole hafter).assign .r1 w⟩
  · exact ⟨rfl, h.halt.advance 1⟩
  · exact ⟨rfl, h⟩

/-- An instruction is executed alike. -/
theorem execute (h : Alike full a b) (i : Instruction) :
    (a.execute i).1 = (b.execute i).1 ∧ Alike full (a.execute i).2 (b.execute i).2 := by
  cases i with
  | add r s i | sub r s i | addi r i | subi r i =>
    simp only [Machine.execute, h.registers]
    exact ⟨trivial, h.assign r _⟩
  | li r i => exact ⟨rfl, h.assign r _⟩
  | ifeq r s i =>
    simp only [Machine.execute, h.registers]
    exact ⟨trivial, h.advance _⟩
  | jump d =>
    have htarget : a.jumpTarget? d = b.jumpTarget? d := by
      unfold jumpTarget?
      rw [h.pc, h.size_eq]
    simp only [Machine.execute]
    rw [htarget]
    cases b.jumpTarget? d with
    | none => exact ⟨rfl, h⟩
    | some target => exact ⟨rfl, h.setPc target⟩
  | syscall id => exact h.service id

/-- A step has the same result, and leaves machines that are alike. -/
theorem step (h : Alike full a b) : a.step.1 = b.step.1 ∧ Alike full a.step.2 b.step.2 := by
  cases hhalted : b.halted with
  | true =>
    rw [step_of_halted hhalted, step_of_halted (h.halted.trans hhalted)]
    exact ⟨rfl, h⟩
  | false =>
    have hfetch := h.fetch_eq
    cases hw : b.program[b.pc]? with
    | none =>
      rw [hw] at hfetch
      rw [step_of_end hhalted hw,
        step_of_end (h.halted.trans hhalted) (Option.map_eq_none_iff.mp hfetch)]
      exact ⟨rfl, h.halt⟩
    | some w =>
      rw [hw] at hfetch
      obtain ⟨v, hv, hdecode⟩ := Option.map_eq_some_iff.mp hfetch
      obtain ⟨hcause, hafter⟩ := h.counted.execute (Word.decode w)
      rw [step_of_word hhalted hw, step_of_word (h.halted.trans hhalted) hv, hdecode, h.pc]
      exact ⟨congrArg (Option.map _) hcause, hafter⟩

/-! ## Calls -/

/-- A bound stops both or neither, as both have executed as many instructions. -/
theorem atLimit_eq (h : Alike True a b) (limit : Option Nat) :
    a.atLimit limit = b.atLimit limit := by
  cases limit with
  | none => rfl
  | some max =>
    unfold atLimit
    rw [h.steps trivial]

/-- Runs end alike, by induction on the fuel. -/
theorem runFor (limit : Option Nat) :
    ∀ (fuel : Nat) {a b : Machine}, Alike True a b →
      (a.runFor limit fuel).1 = (b.runFor limit fuel).1 ∧
        Alike True (a.runFor limit fuel).2 (b.runFor limit fuel).2 := by
  intro fuel
  induction fuel with
  | zero =>
    intro a b h
    unfold Machine.runFor
    rw [h.halted]
    exact ⟨rfl, h⟩
  | succ fuel ih =>
    intro a b h
    cases hhalted : b.halted with
    | true =>
      rw [runFor_of_halted hhalted, runFor_of_halted (h.halted.trans hhalted)]
      exact ⟨rfl, h⟩
    | false =>
      have hhalted' := h.halted.trans hhalted
      cases hl : b.atLimit limit with
      | true =>
        rw [runFor_of_limit hhalted hl, runFor_of_limit hhalted' ((h.atLimit_eq limit).trans hl)]
        exact ⟨congrArg RunEnd.stepLimit (h.steps trivial), h⟩
      | false =>
        have hl' := (h.atLimit_eq limit).trans hl
        obtain ⟨htrap, hafter⟩ := h.step
        -- both steps fail or both succeed, so two of the four cases are none
        rcases hb : b.step with ⟨_ | trap, next⟩ <;> rcases ha : a.step with ⟨_ | trap', next'⟩ <;>
          rw [ha, hb] at htrap hafter
        · rw [runFor_of_step hhalted hl hb, runFor_of_step hhalted' hl' ha]
          exact ih hafter
        · cases htrap
        · cases htrap
        · rw [runFor_of_trap hhalted hl hb, runFor_of_trap hhalted' hl' ha]
          exact ⟨congrArg RunEnd.trapped (Option.some.inj htrap), hafter⟩

theorem run (h : Alike True a b) (limit : Option Nat) :
    (a.run limit).1 = (b.run limit).1 ∧ Alike True (a.run limit).2 (b.run limit).2 := by
  have hfuel : a.fuel limit = b.fuel limit := by
    unfold fuel stateCount
    rw [h.steps trivial, h.size_eq, h.console.input, h.console.output.room]
  unfold Machine.run
  rw [hfuel]
  exact runFor limit _ h

theorem perform (h : Alike True a b) (c : Call) :
    (a.perform c).1 = (b.perform c).1 ∧ Alike True (a.perform c).2 (b.perform c).2 := by
  cases c with
  | step =>
    obtain ⟨htrap, hafter⟩ := h.step
    exact ⟨congrArg Reply.stepped htrap, hafter⟩
  | run limit =>
    obtain ⟨hend, hafter⟩ := h.run (stepBound limit)
    exact ⟨congrArg Reply.ran hend, hafter⟩

/-- Machines that are alike in all respects differ at most in the spelling of their programs. -/
theorem eq_setProgram (h : Alike True a b) : a = { b with program := a.program } := by
  cases a
  cases b
  rw [Machine.mk.injEq]
  exact ⟨rfl, h.registers, h.pc, h.steps trivial, h.halted, h.console.eq⟩

/-- They reply alike to any sequence of calls. -/
theorem session (calls : List Call) : ∀ {a b : Machine}, Alike True a b →
    a.session calls = (b.session calls).map fun (r, m) => (r, { m with program := a.program }) := by
  induction calls with
  | nil => intro a b _; rfl
  | cons c calls ih =>
    intro a b h
    obtain ⟨hreply, hafter⟩ := h.perform c
    -- neither machine has changed its program, so the call leaves them equal but for it
    have heq := hafter.eq_setProgram
    rw [perform_program] at heq
    have hrest := ih hafter
    rw [perform_program] at hrest
    show a.perform c :: (a.perform c).2.session calls = _
    rw [hrest]
    exact congrArg (· :: _) (Prod.ext hreply heq)

end Alike

end Machine

end Glyph8
