import Glyph8.Proofs.Instruction.Codec
import Glyph8.Proofs.Machine.Console
import Glyph8.Proofs.Machine.Step

/-!
# What instructions mean

The instruction set, specified a second time and as relations. The machine executes an instruction
by computing with bytes, testing bounds and setting fields, in some order. What a programmer wants
to know is shorter: which register gets which number, where execution goes on, what is printed, and
when an instruction fails.

`Executes` says what an instruction makes of a machine when it succeeds. What it computes is said in
integers and taken modulo 256 (`assignment?`), so that addition and subtraction are what they seem,
and what is not mentioned stays as it is. `Traps` says when an instruction fails, for which cause
and with which machine. A jump fails if its target, an integer, is outside of the program. A read
uses up its line even if it fails.

Every instruction does one or the other (`executes_or_traps`), and the machine does what is
specified (`Executes.execute_eq`, `Traps.execute_eq`). From these two facts the converse follows,
since what the machine does is unique: a step succeeds or fails exactly as specified
(`step_eq_none_iff`, `step_eq_some_iff`). Other modules use these equivalences and do not open the
machine again.

The main result, `step_meets_specification`, states the equivalence for steps, and two consequences
that are easy to check against the documentation: which jumps are bad, and what a print adds to the
output.
-/

namespace Glyph8

/-! ## Registers -/

namespace Registers

/-- The contents of a register as an integer. -/
def number (rs : Registers) (r : Register) : Int := (rs.get r).toNat

/-- One register becomes an integer modulo 256, and the others stay. -/
structure Assigns (rs : Registers) (r : Register) (v : Int) (after : Registers) : Prop where
  target : after.number r = v % 256
  others : ∀ s ≠ r, after.get s = rs.get s

variable {rs ss after : Registers} {r : Register} {v : Int} {b : UInt8}

/-- Registers are known by what they hold. -/
theorem eq_of_get_eq (h : ∀ r, rs.get r = ss.get r) : rs = ss := by
  cases rs
  cases ss
  rw [Registers.mk.injEq]
  exact ⟨h .r1, h .r2, h .r3, h .r4⟩

/-- There is one way to assign, and it is to set the register to the right byte. -/
theorem assigns_iff (hb : (b.toNat : Int) = v % 256) :
    rs.Assigns r v after ↔ after = rs.set r b := by
  constructor
  · intro h
    refine eq_of_get_eq fun s => ?_
    by_cases hs : s = r
    · have htarget : ((after.get r).toNat : Int) = v % 256 := h.target
      rw [hs, get_set_self]
      exact UInt8.toNat_inj.mp (by omega)
    · rw [h.others s hs, get_set_of_ne rs hs]
  · rintro rfl
    refine ⟨?_, fun s hs => get_set_of_ne rs hs b⟩
    unfold number
    rw [get_set_self, hb]

theorem assigns_byte_iff : rs.Assigns r b.toNat after ↔ after = rs.set r b := by
  have hb := b.toNat_lt
  exact assigns_iff (by omega)

end Registers

/-- The register that an instruction assigns to and the number that it computes for it, if it is an
instruction of this kind. -/
def Instruction.assignment? (value : Register → Int) : Instruction → Option (Register × Int)
  | .add r s i => some (r, value r + value s + i.val)
  | .sub r s i => some (r, value r - value s - i.val)
  | .addi r i => some (r, value r + i.val)
  | .subi r i => some (r, value r - i.val)
  | .li r i => some (r, i.val)
  | .ifeq _ _ _ | .jump _ | .syscall _ => none

namespace Machine

/-! ## The specification -/

/-- An instruction takes a machine to another. -/
inductive Executes (m : Machine) : Instruction → Machine → Prop where
  | assign {i : Instruction} {r : Register} {v : Int} {rs : Registers}
      (hi : i.assignment? m.registers.number = some (r, v)) (hrs : m.registers.Assigns r v rs) :
      Executes m i { m with registers := rs, pc := m.pc + 1, steps := m.steps + 1 }
  /-- Unless the comparison comes out as the immediate says, the next instruction is executed. -/
  | proceed {r s : Register} {i : Fin 2} (h : ¬(m.registers.get r = m.registers.get s ↔ i = 1)) :
      Executes m (.ifeq r s i) { m with pc := m.pc + 1, steps := m.steps + 1 }
  | skip {r s : Register} {i : Fin 2} (h : m.registers.get r = m.registers.get s ↔ i = 1) :
      Executes m (.ifeq r s i)
        { m with pc := min (m.pc + 2) m.program.size, steps := m.steps + 1 }
  | jump {d : Displacement} {target : Nat} (htarget : (target : Int) = m.pc + d.val)
      (hle : target ≤ m.program.size) :
      Executes m (.jump d) { m with pc := target, steps := m.steps + 1 }
  | print {line : Text} (hline : line = Text.decimal m.registers.r1.toNat ++ utf8 "\n")
      (hfits : m.console.output.fits line = true) :
      Executes m (.syscall Syscall.print.id)
        { m with
          console := { m.console with output := m.console.output.push line }
          pc := m.pc + 1
          steps := m.steps + 1 }
  | read {line rest : Text} {v : UInt8} {rs : Registers}
      (hline : Console.NextLine m.console.input m.console.failure (.ok line) rest)
      (hv : line.trim.byte? = some v) (hrs : m.registers.Assigns .r1 v.toNat rs) :
      Executes m (.syscall Syscall.read.id)
        { m with
          registers := rs
          console := { m.console.prompt with input := rest }
          pc := m.pc + 1
          steps := m.steps + 1 }
  | terminate :
      Executes m (.syscall Syscall.terminate.id)
        { m with halted := true, pc := m.pc + 1, steps := m.steps + 1 }

/-- An instruction fails. It is counted all the same. -/
inductive Traps (m : Machine) : Instruction → TrapCause → Machine → Prop where
  | jump {d : Displacement}
      (h : ¬(0 ≤ (m.pc : Int) + d.val ∧ (m.pc : Int) + d.val ≤ m.program.size)) :
      Traps m (.jump d) .badJump { m with steps := m.steps + 1 }
  | unassigned {id : Fin 4} (h : ∀ s : Syscall, s.id ≠ id) :
      Traps m (.syscall id) (.unassignedSyscall id) { m with steps := m.steps + 1 }
  | print {line : Text} (hline : line = Text.decimal m.registers.r1.toNat ++ utf8 "\n")
      (hfits : m.console.output.fits line = false) :
      Traps m (.syscall Syscall.print.id) (.console .outputFull) { m with steps := m.steps + 1 }
  /-- A failed read has taken its line, if there was one. -/
  | read {line : Except ConsoleError Text} {rest : Text} {e : ConsoleError}
      (hline : Console.NextLine m.console.input m.console.failure line rest)
      (he : line.bind Console.value = .error e) :
      Traps m (.syscall Syscall.read.id) (.console e)
        { m with console := { m.console.prompt with input := rest }, steps := m.steps + 1 }

/-! ## Single instructions -/

variable {m next : Machine} {i : Instruction} {r s : Register} {v : Int} {k : Fin 2}
  {d : Displacement} {c : Console} {e : ConsoleError} {cause : TrapCause} {w : Word} {trap : Trap}

theorem advance_one (hpc : m.pc < m.program.size) : m.advance 1 = { m with pc := m.pc + 1 } := by
  unfold advance
  rw [Nat.min_eq_left hpc]

/-- The byte that is assigned is the specified number, modulo 256. -/
theorem execute_assignment (hi : i.assignment? m.registers.number = some (r, v)) :
    ∃ b : UInt8, (b.toNat : Int) = v % 256 ∧ m.execute i = (none, m.assign r b) := by
  cases i with
  | add r s k =>
    cases hi
    refine ⟨_, ?_, rfl⟩
    rw [UInt8.toNat_add, UInt8.toNat_add, toNat_byteOf (by decide)]
    unfold Registers.number
    omega
  | sub r s k =>
    cases hi
    refine ⟨_, ?_, rfl⟩
    -- subtraction of bytes adds what is missing to 256, which is not cut off
    have hr := (m.registers.get r).toNat_lt
    have hs := (m.registers.get s).toNat_lt
    rw [UInt8.toNat_sub, UInt8.toNat_sub, toNat_byteOf (by decide)]
    unfold Registers.number
    omega
  | addi r k =>
    cases hi
    refine ⟨_, ?_, rfl⟩
    rw [UInt8.toNat_add, toNat_byteOf (by decide)]
    unfold Registers.number
    omega
  | subi r k =>
    cases hi
    refine ⟨_, ?_, rfl⟩
    rw [UInt8.toNat_sub, toNat_byteOf (by decide)]
    unfold Registers.number
    omega
  | li r k =>
    cases hi
    refine ⟨_, ?_, rfl⟩
    rw [toNat_byteOf (by decide)]
    omega
  | ifeq | jump | syscall => cases hi

/-- The comparison skips if it comes out as the immediate says. -/
theorem compares_iff {a b : UInt8} : ((a == b) == (k == 1)) = true ↔ (a = b ↔ k = 1) := by
  rw [beq_iff_eq, Bool.eq_iff_iff, beq_iff_eq, beq_iff_eq]

/-- A comparison that comes out as the immediate says skips an instruction. -/
theorem execute_skip (h : m.registers.get r = m.registers.get s ↔ k = 1) :
    m.execute (.ifeq r s k) = (none, m.advance 2) := by
  simp only [execute]
  rw [if_pos (compares_iff.mpr h)]

/-- Otherwise the next instruction is executed. -/
theorem execute_proceed (h : ¬(m.registers.get r = m.registers.get s ↔ k = 1)) :
    m.execute (.ifeq r s k) = (none, m.advance 1) := by
  simp only [execute]
  rw [if_neg (mt compares_iff.mp h)]

/-- A jump to a place in the program, or to its end, is taken. -/
theorem execute_jump {target : Nat} (htarget : (target : Int) = m.pc + d.val)
    (hle : target ≤ m.program.size) : m.execute (.jump d) = (none, { m with pc := target }) := by
  have hjump : m.jumpTarget? d = some target := by
    simp only [jumpTarget?]
    rw [← htarget, if_pos ⟨by omega, by omega⟩, Int.toNat_natCast]
  simp only [execute, hjump]

/-- Any other jump is bad. -/
theorem execute_jump_outside
    (h : ¬(0 ≤ (m.pc : Int) + d.val ∧ (m.pc : Int) + d.val ≤ m.program.size)) :
    m.execute (.jump d) = (some .badJump, m) := by
  have hjump : m.jumpTarget? d = none := if_neg h
  simp only [execute, hjump]

theorem service_print (h : m.console.print m.registers.r1 = (.ok (), c)) :
    m.service Syscall.print.id = (none, { m with console := c }.advance 1) := by
  unfold service
  rw [Syscall.ofCode?_id, h]

theorem service_print_error (h : m.console.print m.registers.r1 = (.error e, c)) :
    m.service Syscall.print.id = (some (.console e), { m with console := c }) := by
  unfold service
  rw [Syscall.ofCode?_id, h]

/-- A value that is read goes to the first register. -/
theorem service_read {b : UInt8} (h : m.console.read = (.ok b, c)) :
    m.service Syscall.read.id = (none, { m with console := c }.assign .r1 b) := by
  unfold service
  rw [Syscall.ofCode?_id, h]

/-- A read that fails stays where it is. -/
theorem service_read_error (h : m.console.read = (.error e, c)) :
    m.service Syscall.read.id = (some (.console e), { m with console := c }) := by
  unfold service
  rw [Syscall.ofCode?_id, h]

/-- Terminating halts the machine, past the instruction. -/
theorem service_terminate (m : Machine) :
    m.service Syscall.terminate.id = (none, { m with halted := true }.advance 1) := by
  unfold service
  rw [Syscall.ofCode?_id]

theorem service_unassigned {id : Fin 4} (h : ∀ s : Syscall, s.id ≠ id) :
    m.service id = (some (.unassignedSyscall id), m) := by
  unfold service
  cases hs : Syscall.ofCode? (byteOf id) with
  | none => rfl
  | some s => exact absurd (Syscall.id_of_ofCode? hs) (h s)

/-! ## Instructions do what is specified -/

/-- What is specified for success is what the machine does. -/
theorem Executes.execute_eq (h : m.Executes i next) (hpc : m.pc < m.program.size) :
    m.counted.execute i = (none, next) := by
  -- the machine that executes is the one in which the instruction has been counted
  cases h with
  | assign hi hrs =>
    obtain ⟨b, hb, hexecute⟩ := execute_assignment (m := m.counted) hi
    rw [(Registers.assigns_iff hb).mp hrs]
    exact hexecute.trans (congrArg (Prod.mk none) (advance_one (by exact hpc)))
  | proceed h =>
    exact (execute_proceed (m := m.counted) h).trans
      (congrArg (Prod.mk none) (advance_one (by exact hpc)))
  | skip h => exact execute_skip (m := m.counted) h
  | jump htarget hle => exact execute_jump (m := m.counted) htarget hle
  | print hline hfits =>
    subst hline
    exact (service_print (m := m.counted) (Console.print_of_fits hfits)).trans
      (congrArg (Prod.mk none) (advance_one (by exact hpc)))
  | @read line rest v rs hline hv hrs =>
    have hread := Console.read_of_nextLine hline
    rw [Console.bind_value_eq_ok_iff.mpr ⟨line, rfl, hv⟩] at hread
    rw [Registers.assigns_byte_iff.mp hrs]
    exact (service_read (m := m.counted) hread).trans
      (congrArg (Prod.mk none) (advance_one (by exact hpc)))
  | terminate =>
    exact (service_terminate m.counted).trans
      (congrArg (Prod.mk none) (advance_one (by exact hpc)))

/-- What is specified for failure is what the machine does. -/
theorem Traps.execute_eq (h : m.Traps i cause next) : m.counted.execute i = (some cause, next) := by
  cases h with
  | jump h => exact execute_jump_outside (m := m.counted) h
  | unassigned h => exact service_unassigned h
  | print hline hfits =>
    subst hline
    exact service_print_error (m := m.counted) (Console.print_of_full hfits)
  | read hline he =>
    have hread := Console.read_of_nextLine hline
    rw [he] at hread
    exact service_read_error (m := m.counted) hread

/-- Every instruction succeeds or fails. -/
theorem executes_or_traps (m : Machine) (i : Instruction) :
    (∃ next, m.Executes i next) ∨ ∃ cause next, m.Traps i cause next := by
  -- the byte that the machine computes shows that there is a register file as specified
  have hassign : ∀ {r v}, i.assignment? m.registers.number = some (r, v) →
      ∃ next, m.Executes i next := by
    intro r v hi
    obtain ⟨b, hb, _⟩ := execute_assignment hi
    exact ⟨_, .assign hi ((Registers.assigns_iff hb).mpr rfl)⟩
  cases i with
  | add | sub | addi | subi | li => exact .inl (hassign rfl)
  | ifeq r s i =>
    by_cases h : m.registers.get r = m.registers.get s ↔ i = 1
    · exact .inl ⟨_, .skip h⟩
    · exact .inl ⟨_, .proceed h⟩
  | jump d =>
    by_cases h : 0 ≤ (m.pc : Int) + d.val ∧ (m.pc : Int) + d.val ≤ m.program.size
    · exact .inl ⟨_, .jump (Int.toNat_of_nonneg h.1) (by omega)⟩
    · exact .inr ⟨_, _, .jump h⟩
  | syscall id =>
    cases hs : Syscall.ofCode? (byteOf id) with
    | none =>
      refine .inr ⟨_, _, .unassigned ?_⟩
      rintro s rfl
      rw [s.ofCode?_id] at hs
      cases hs
    | some s =>
      rw [← Syscall.id_of_ofCode? hs]
      cases s with
      | print =>
        cases hfits : m.console.output.fits (Console.printed m.registers.r1) with
        | true => exact .inl ⟨_, .print rfl hfits⟩
        | false => exact .inr ⟨_, _, .print rfl hfits⟩
      | read =>
        -- every input goes on in some way, and the value on its next line decides
        obtain ⟨line, rest, hline⟩ := Console.exists_nextLine m.console.input m.console.failure
        cases hread : line.bind Console.value with
        | error e => exact .inr ⟨_, _, .read hline hread⟩
        | ok v =>
          obtain ⟨text, rfl, hv⟩ := Console.bind_value_eq_ok_iff.mp hread
          exact .inl ⟨_, .read hline hv (Registers.assigns_byte_iff.mpr rfl)⟩
      | terminate => exact .inl ⟨_, .terminate⟩

theorem execute_eq_none_iff (hpc : m.pc < m.program.size) :
    m.counted.execute i = (none, next) ↔ m.Executes i next := by
  refine ⟨?_, fun h => h.execute_eq hpc⟩
  intro h
  rcases m.executes_or_traps i with ⟨next', h'⟩ | ⟨cause, next', h'⟩
  · rw [h'.execute_eq hpc] at h
    exact (Prod.mk.inj h).2 ▸ h'
  · rw [h'.execute_eq] at h
    cases h

theorem execute_eq_some_iff (hpc : m.pc < m.program.size) :
    m.counted.execute i = (some cause, next) ↔ m.Traps i cause next := by
  refine ⟨?_, fun h => h.execute_eq⟩
  intro h
  rcases m.executes_or_traps i with ⟨next', h'⟩ | ⟨cause', next', h'⟩
  · rw [h'.execute_eq hpc] at h
    cases h
  · rw [h'.execute_eq] at h
    cases h
    exact h'

/-! ## Steps -/

/-- A step that succeeds does what its instruction is specified to do. -/
theorem step_eq_none_iff (hm : m.halted = false) (hw : m.program[m.pc]? = some w) :
    m.step = (none, next) ↔ m.Executes (Word.decode w) next := by
  have hpc := (Array.getElem?_eq_some_iff.mp hw).1
  rw [step_of_word hm hw, ← execute_eq_none_iff hpc, Prod.ext_iff, Prod.ext_iff,
    Option.map_eq_none_iff]

/-- A step that fails reports its instruction, and does what is specified for its failure. -/
theorem step_eq_some_iff (hm : m.halted = false) (hw : m.program[m.pc]? = some w) :
    m.step = (some trap, next) ↔
      ∃ cause, trap = ⟨m.pc + 1, Word.decode w, cause⟩ ∧
        m.Traps (Word.decode w) cause next := by
  have hpc := (Array.getElem?_eq_some_iff.mp hw).1
  rw [step_of_word hm hw, Prod.ext_iff, Option.map_eq_some_iff]
  constructor
  · intro ⟨⟨cause, hcause, htrap⟩, hnext⟩
    exact ⟨cause, htrap.symm, (execute_eq_some_iff hpc).mp (Prod.ext hcause hnext)⟩
  · intro ⟨cause, htrap, h⟩
    rw [h.execute_eq]
    exact ⟨⟨cause, rfl, htrap.symm⟩, rfl⟩

/-- What a step that fails has found and done. -/
theorem exists_traps_of_step (h : m.step = (some trap, next)) :
    m.halted = false ∧ ∃ w, m.program[m.pc]? = some w ∧ trap.position = m.pc + 1 ∧
      trap.instruction = Word.decode w ∧ m.Traps (Word.decode w) trap.cause next := by
  obtain ⟨hm, w, hw⟩ := exists_word_of_trap (congrArg Prod.fst h)
  obtain ⟨cause, rfl, htraps⟩ := (step_eq_some_iff hm hw).mp h
  exact ⟨hm, w, hw, rfl, rfl, htraps⟩

/-- Only one instruction halts the machine. -/
theorem Executes.eq_terminate (h : m.Executes i next) (hm : m.halted = false)
    (hnext : next.halted = true) : i = .syscall Syscall.terminate.id := by
  cases h with
  | terminate => rfl
  | assign | proceed | skip | jump | print | read => exact nomatch hm.symm.trans hnext

/-- Only jumps are bad, and only those that lead out of the program. -/
theorem traps_badJump_iff :
    (∃ next, m.Traps i .badJump next) ↔
      ∃ d, i = .jump d ∧
        ¬(0 ≤ (m.pc : Int) + d.val ∧ (m.pc : Int) + d.val ≤ m.program.size) := by
  constructor
  · intro ⟨next, h⟩
    cases h with
    | jump h => exact ⟨_, rfl, h⟩
  · rintro ⟨d, rfl, h⟩
    exact ⟨_, .jump h⟩

/-- A print that succeeds adds one line to the output. -/
theorem text_of_print (hm : m.halted = false) (hw : m.program[m.pc]? = some w)
    (hi : Word.decode w = .syscall Syscall.print.id) (hs : m.step = (none, next)) :
    next.console.output.text =
      m.console.output.text ++ (Text.decimal m.registers.r1.toNat ++ utf8 "\n") := by
  have h := (step_eq_none_iff hm hw).mp hs
  rw [hi] at h
  cases h with
  | assign hi => cases hi
  | print hline hfits =>
    rw [← hline]
    exact Sink.text_push _ _

/-- Steps implement the specification: from any machine that has not halted and whose program
counter is in the program, a step succeeds exactly as specified, and fails for a bad jump exactly
if the jump's target is outside of the program. A successful print adds one line to the output. -/
theorem step_meets_specification (m : Machine) (hm : m.halted = false)
    (hpc : m.pc < m.program.size) :
    let i := Word.decode m.program[m.pc]
    (∀ next, m.step = (none, next) ↔ m.Executes i next) ∧
    (m.step.1 = some ⟨m.pc + 1, i, .badJump⟩ ↔ ∃ d, i = .jump d ∧
      ¬(0 ≤ (m.pc : Int) + d.val ∧ (m.pc : Int) + d.val ≤ m.program.size)) ∧
    ∀ next, m.step = (none, next) → i = .syscall Syscall.print.id →
      next.console.output.text =
        m.console.output.text ++ (Text.decimal m.registers.r1.toNat ++ utf8 "\n") := by
  intro i
  have hw : m.program[m.pc]? = some m.program[m.pc] := Array.getElem?_eq_getElem hpc
  refine ⟨fun next => step_eq_none_iff hm hw, ?_, ?_⟩
  · rw [← traps_badJump_iff]
    constructor
    · -- the trap tells its cause, and the cause tells that the instruction fails as specified
      intro h
      obtain ⟨cause, htrap, htraps⟩ := (step_eq_some_iff hm hw).mp (Prod.ext h rfl)
      cases htrap
      exact ⟨_, htraps⟩
    · intro ⟨next, h⟩
      rw [(step_eq_some_iff hm hw).mpr ⟨.badJump, rfl, h⟩]
  · intro next hnext hi
    exact text_of_print hm hw hi hnext

/-- A register less itself and one, which is below zero, and a jump to before the program. -/
theorem step_meets_specification_below_zero :
    let m : Machine := { load [0x21] {} with registers := { r1 := 5 } }
    (m.halted = false ∧ m.pc < m.program.size ∧
      m.Executes (.sub .r1 .r1 1) { m with registers := { r1 := 255 }, pc := 1, steps := 1 }) ∧
    (load [0xD1] {}).halted = false ∧ (load [0xD1] {}).pc < (load [0xD1] {}).program.size ∧
      (load [0xD1] {}).step.1 = some ⟨1, .jump ⟨-1, by decide⟩, .badJump⟩ := by
  intro m
  refine ⟨⟨rfl, by decide, ?_⟩, rfl, by decide, ?_⟩
  · have hstep : m.step =
        (none, { m with registers := { r1 := 255 }, pc := 1, steps := 1 }) := by decide
    have hword : Word.decode m.program[m.pc] = .sub .r1 .r1 1 := by decide
    rw [← hword]
    exact ((step_meets_specification m rfl (by decide)).1 _).mp hstep
  · exact (step_meets_specification (load [0xD1] {}) rfl (by decide)).2.1.mpr
      ⟨⟨-1, by decide⟩, by decide, by decide⟩

end Machine

end Glyph8
