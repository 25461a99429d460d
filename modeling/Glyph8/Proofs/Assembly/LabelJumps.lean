import Glyph8.Proofs.Assembly.Encoding
import Glyph8.Proofs.Assembly.Labels
import Glyph8.Proofs.Machine.Session

/-!
# Jumps to labels

A jump to a label goes through four ways of counting. The first pass numbers labels from one, by the
instructions before them. The second pass numbers instructions by a counter of its own, also from
one. A word holds the distance as sign and magnitude. And the machine counts from zero. An error by
one in any of them would send every jump astray.

`LandsAt` says what it means that they fit together: the table has the label at a position within
the program or just behind it, the label's line comes after that many instruction lines, the word
decodes to a jump by the distance, and one step of a machine at the jump goes to the instruction
after the label. It holds of every jump whose operand is no number (`exists_landsAt`).

The main result, `label_jumps_land`, adds what this means for runs: a program that jumps only to
labels never leaves itself. A step can fail with a bad jump only at a jump, every jump comes from an
instruction line, and that jump lands (`step_ne_badJump`); a session is made of steps.

Positions have no limit here. `encodeWrapped_of_survey` says that nothing changes if they are kept
in 64 bits, for code whose instruction lines can be counted in 63.
-/

namespace Glyph8

/-- The jump with index `i` goes to the label `name`, which is at position `t`. -/
structure LandsAt (code : List Line) (p : Program) (i : Nat) (name : Text) (t : Nat) : Prop where
  symbol : p.symbols.find? name = some t
  pos : 1 ≤ t
  le : t ≤ p.words.length + 1
  /-- The label's line, and no other line for the label, comes after `t - 1` instruction lines. -/
  label : ∀ count, LabelAfter code name count ↔ count = t - 1
  word : ∃ w d, p.words[i]? = some w ∧ Word.decode w = .jump d ∧ d.val = (t : Int) - (i + 1)
  /-- Whatever else the machine holds, the jump changes only the program counter. -/
  step : ∀ m : Machine, m.program = p.words.toArray → m.halted = false → m.pc = i →
    m.step = (none, { m with pc := t - 1, steps := m.steps + 1 })

/-! ## One jump -/

/-- A machine at a jump whose target lies in the program goes there. -/
theorem step_jump {m : Machine} {w : Word} {d : Displacement} {target : Nat}
    (hhalted : m.halted = false) (hw : m.program[m.pc]? = some w)
    (hdecode : Word.decode w = .jump d) (htarget : (m.pc : Int) + d.val = target)
    (hle : target ≤ m.program.size) :
    m.step = (none, { m with pc := target, steps := m.steps + 1 }) := by
  exact (Machine.step_eq_none_iff hhalted hw).mpr (hdecode ▸ .jump htarget.symm hle)

section

variable {src : Text} {p : Program} {code : List Line} {s : Survey}

theorem getElem?_words {i : Nat} {l : InstructionLine} {instr : Instruction}
    (h : p.placed[i]? = some ⟨l.num, instr.word⟩) : p.words[i]? = some instr.word := by
  show (p.placed.map _)[i]? = _
  rw [List.getElem?_map, h]
  rfl

theorem length_words : p.words.length = p.placed.length := List.length_map ..

/-- A jump with an operand that is no number lands at the label that the operand names. -/
theorem exists_landsAt (hs : survey code = .ok s)
    (hplaced : encodeAll s.symbols code = .ok p.placed)
    (hsymbols : p.symbols = s.symbols) {i : Nat} {l : InstructionLine} {name : Text}
    (hl : (instructionLines code)[i]? = some l)
    (hjump : Survey.jumpTarget? l.head l.operands = some name)
    (hname : name.isSignedDecimal = false) :
    ∃ t, LandsAt code p i name t := by
  obtain ⟨instr, hinstr, hword⟩ := getElem?_encodeAll hplaced hl
  have hword := getElem?_words hword
  have hop : Opcode.ofToken? l.head = some .jump := by
    unfold Survey.jumpTarget? at hjump
    split at hjump
    · assumption
    · cases hjump
  -- the jump was encoded, so it has one operand, which is the target
  obtain ⟨token, d, hoperands, hd, hinstr⟩ := ofTokens_jump hop hinstr
  have htoken : token = name := by
    unfold Survey.jumpTarget? at hjump
    rw [if_pos hop, hoperands] at hjump
    exact Option.some.inj hjump
  rw [htoken] at hd
  rw [hinstr] at hword
  rcases displacement_cases hd with hnumber | ⟨t, ht, hval⟩
  · -- the target is no number, so it was looked up as a label
    rw [hname] at hnumber
    cases hnumber
  · have hlen : p.words.length = (instructionLines code).length :=
      length_words.trans (length_encodeAll hplaced)
    obtain ⟨k, hk, htk⟩ := (find?_survey_iff hs).mp ht
    have hle := hk.le
    refine ⟨t, hsymbols ▸ ht, by omega, by omega, ?_, ⟨_, d, hword, decode_word _, ?_⟩, ?_⟩
    · -- two lines for one label would be two positions in the table
      intro count
      constructor
      · intro hcount
        have hfind := (find?_survey_iff hs).mpr ⟨count, hcount, rfl⟩
        rw [ht] at hfind
        have := Option.some.inj hfind
        omega
      · intro hcount
        rw [show count = k by omega]
        exact hk
    · rw [hval]
      push_cast
      rfl
    · -- the machine counts from zero and the table from one, which is nothing to a distance
      intro m hprogram hhalted hpc
      refine step_jump hhalted (w := (Instruction.jump d).word) ?_ (decode_word _) ?_ ?_
      · rw [hprogram, hpc, List.getElem?_toArray]
        exact hword
      · rw [hval, hpc]
        push_cast
        omega
      · rw [hprogram, List.size_toArray]
        omega

/-- A program whose jumps all go to labels has no step that leaves it. -/
theorem step_ne_badJump (hs : survey code = .ok s)
    (hplaced : encodeAll s.symbols code = .ok p.placed) (hsymbols : p.symbols = s.symbols)
    (hlabels : ∀ l ∈ instructionLines code, ∀ name,
      Survey.jumpTarget? l.head l.operands = some name → name.isSignedDecimal = false)
    {m : Machine} (hprogram : m.program = p.words.toArray) {trap : Trap}
    (htrap : m.step.1 = some trap) : trap.cause ≠ .badJump := by
  intro hcause
  obtain ⟨hhalted, w, hw, _, _, htraps⟩ := Machine.exists_traps_of_step (Prod.ext htrap rfl)
  rw [hcause] at htraps
  obtain ⟨d, hd, _⟩ := Machine.traps_badJump_iff.mp ⟨_, htraps⟩
  rw [hprogram, List.getElem?_toArray] at hw
  -- the word at the program counter comes from an instruction line, which is a jump
  obtain ⟨placed, hplaced', hpw⟩ : ∃ q, p.placed[m.pc]? = some q ∧ q.word = w := by
    rw [Program.words, List.getElem?_map] at hw
    exact Option.map_eq_some_iff.mp hw
  obtain ⟨l, hl⟩ := exists_line_of_getElem? hplaced hplaced'
  obtain ⟨instr, hinstr, hword⟩ := getElem?_encodeAll hplaced hl
  have hinstr' : instr = .jump d := by
    rw [hplaced'] at hword
    rw [← hd, ← hpw, Option.some.inj hword, decode_word]
  have hop : Opcode.ofToken? l.head = some .jump := by
    rw [ofToken?_of_ofTokens hinstr, hinstr']
    rfl
  obtain ⟨name, _, hoperands, _, _⟩ := ofTokens_jump hop hinstr
  have htarget : Survey.jumpTarget? l.head l.operands = some name := by
    unfold Survey.jumpTarget?
    rw [if_pos hop, hoperands]
    rfl
  have hname := hlabels l (List.mem_of_getElem? hl) name htarget
  obtain ⟨t, ht⟩ := exists_landsAt hs hplaced hsymbols hl htarget hname
  rw [ht.step m hprogram hhalted rfl] at htrap
  cases htrap

/-- Distances in 64 bits are exact in code whose instruction lines a signed 64-bit number can
count. -/
theorem encodeWrapped_of_survey (hs : survey code = .ok s)
    (hlen : (instructionLines code).length < Text.maxInt64) {l : InstructionLine} {pc : Nat}
    (h : (l, pc) ∈ (instructionLines code).zipIdx 1) :
    l.encodeWrapped s.symbols pc = l.encode s.symbols pc := by
  have hpc := (List.mem_zipIdx h).2.1
  refine encodeWrapped_eq_encode (by omega) ?_ l
  intro name target hfind
  obtain ⟨k, hk, rfl⟩ := (find?_survey_iff hs).mp hfind
  have := hk.le
  omega

end

/-- In an assembled program, a jump with an operand that is no number lands at the label that the
operand names. If all jumps are such jumps, no step or run, after any calls, leaves the program. -/
theorem label_jumps_land {src : Text} {p : Program} (h : assemble src = .ok p) :
    ∃ code, expandedCode src = .ok code ∧
      (∀ (i : Nat) (l : InstructionLine) (name : Text), (instructionLines code)[i]? = some l →
        Survey.jumpTarget? l.head l.operands = some name → name.isSignedDecimal = false →
        ∃ t, LandsAt code p i name t) ∧
      ((∀ l ∈ instructionLines code, ∀ name,
          Survey.jumpTarget? l.head l.operands = some name → name.isSignedDecimal = false) →
        ∀ (console : Console) (calls : List Machine.Call),
          ∀ r ∈ (Machine.load p.words console).session calls, ∀ trap,
            r.1.trap? = some trap → trap.cause ≠ .badJump) := by
  obtain ⟨code, s, hcode, hs, hplaced, hsymbols⟩ := assemble_eq_ok_iff.mp h
  refine ⟨code, hcode, ?_, ?_⟩
  · intro i l name hl hjump hname
    exact exists_landsAt hs hplaced hsymbols hl hjump hname
  · intro hlabels console calls r hr trap htrap
    obtain ⟨m, hm, hstep⟩ := Machine.session_trap calls hr htrap
    exact step_ne_badJump hs hplaced hsymbols hlabels hm hstep

/-- A jump forward to one of two labels at the end of the code, written by a macro, and a jump back
to the first line. -/
def loopingSource : Text :=
  utf8 "🔓 go\n♿ _\n🔒\n💬\ntop:\ngo end\n♿ top\nend:\nfin:"

/-- The program of `loopingSource`. -/
def loopingProgram : Program :=
  { placed := [⟨6, 0xC2⟩, ⟨7, 0xD1⟩]
    symbols := ⟨[(utf8 "top", 1), (utf8 "end", 3), (utf8 "fin", 3)]⟩ }

/-- Both labels at the end are one position behind the last word, and the jump back lands on the
first. -/
theorem label_jumps_land_looping :
    assemble loopingSource = .ok loopingProgram ∧
      (∃ code t u, expandedCode loopingSource = .ok code ∧
        LandsAt code loopingProgram 0 (utf8 "end") t ∧
          LandsAt code loopingProgram 1 (utf8 "top") u) ∧
      ∀ (console : Console) (calls : List Machine.Call),
        ∀ r ∈ (Machine.load loopingProgram.words console).session calls, ∀ trap,
          r.1.trap? = some trap → trap.cause ≠ .badJump := by
  have h : assemble loopingSource = .ok loopingProgram := by decide +kernel
  obtain ⟨code, hcode, hlands, hinside⟩ := label_jumps_land h
  have hlines : (expandedCode loopingSource).map instructionLines =
      .ok [⟨6, utf8 "♿", [utf8 "end"]⟩, ⟨7, utf8 "♿", [utf8 "top"]⟩] := by decide +kernel
  rw [hcode] at hlines
  have hlines := Except.ok.inj hlines
  have hlabels : ∀ l ∈ instructionLines code, ∀ name ∈ Survey.jumpTarget? l.head l.operands,
      name.isSignedDecimal = false := by
    rw [hlines]
    decide +kernel
  obtain ⟨t, ht⟩ := hlands 0 _ (utf8 "end") (by rw [hlines]; rfl) (by decide +kernel)
    (by decide +kernel)
  obtain ⟨u, hu⟩ := hlands 1 _ (utf8 "top") (by rw [hlines]; rfl) (by decide +kernel)
    (by decide +kernel)
  exact ⟨h, ⟨code, t, u, hcode, ht, hu⟩, hinside hlabels⟩

end Glyph8
