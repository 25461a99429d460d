import Glyph8.Proofs.Listing.Reassembly
import Glyph8.Proofs.Machine.Session

/-!
# Assembled words are canonical

Several words stand for one instruction: a jump by zero can be written with either sign, and a
system call has bits that nothing reads. A loader or a listing that goes through instructions would
change such words. This module shows that the assembler never makes one.

Operands can be written in many ways: with signs and leading zeros, as labels, with further
characters after a symbol, by macros. All of them end in an `Instruction`, and the word is packed
from that. So every word of an assembled program is the word of an instruction whose system call is
assigned (`exists_instruction_of_mem`), no matter how its line was spelled.

The main result, `assembled_words_canonical`, draws the conclusions. Encoding a decoded word gives
the word back, so no word is a jump by negative zero or has an unused bit set
(`canonical_of_encode_decode`). Reassembling the program's own listing reproduces it. And no machine
that runs it meets an unassigned system call: a step can fail in this way only at such an
instruction (`step_ne_unassigned`), and a session does nothing but steps.
-/

namespace Glyph8

/-! ## Canonical words -/

/-- Two kinds of words are not what encoding gives for them: a jump by negative zero, and a system
call that is unassigned or has unused bits set. -/
theorem canonical_of_encode_decode :
    ∀ w : Word, (Word.decode w).fields.encode = .ok w →
      w ≠ 0xD0 ∧ (w.opcode = .syscall → w = 0xE0 ∨ w = 0xE1 ∨ w = 0xE2) := by
  -- there are only 256 words
  refine forall_byte ?_
  decide +kernel

/-! ## Where words come from -/

/-- Every word of an assembled program is packed from an instruction that its line spells. -/
theorem exists_instruction_of_mem {src : Text} {p : Program} (h : assemble src = .ok p) {w : Word}
    (hw : w ∈ p.words) : ∃ i : Instruction, i.isAssigned = true ∧ w = i.word := by
  obtain ⟨code, s, _, _, hplaced, _⟩ := assemble_eq_ok_iff.mp h
  obtain ⟨placed, hmem, rfl⟩ := List.mem_map.mp hw
  obtain ⟨n, hn⟩ := List.getElem?_of_mem hmem
  obtain ⟨l, hl⟩ := exists_line_of_getElem? hplaced hn
  obtain ⟨i, hi, hword⟩ := getElem?_encodeAll hplaced hl
  rw [hn] at hword
  exact ⟨i, isAssigned_of_read hi, congrArg PlacedWord.word (Option.some.inj hword)⟩

/-! ## Running words -/

namespace Machine

/-- Only a system call that is unassigned fails as such. -/
theorem Traps.isAssigned_eq_false {m next : Machine} {i : Instruction} {id : Fin 4}
    (h : m.Traps i (.unassignedSyscall id) next) : i.isAssigned = false := by
  cases h with
  | unassigned h =>
    show (Syscall.ofCode? (byteOf id)).isSome = false
    cases hs : Syscall.ofCode? (byteOf id) with
    | none => rfl
    | some s => exact absurd (Syscall.id_of_ofCode? hs) (h s)

/-- A program without the unassigned system call has no step that fails with one. -/
theorem step_ne_unassigned {m : Machine}
    (hprogram : ∀ w ∈ m.program.toList, (Word.decode w).isAssigned = true) {trap : Trap}
    (htrap : m.step.1 = some trap) (id : Fin 4) : trap.cause ≠ .unassignedSyscall id := by
  intro hcause
  obtain ⟨_, w, hw, _, _, htraps⟩ := exists_traps_of_step (Prod.ext htrap rfl)
  rw [hcause] at htraps
  have hmem : w ∈ m.program.toList := Array.mem_toList_iff.mpr (Array.mem_of_getElem? hw)
  exact nomatch (hprogram w hmem).symm.trans htraps.isAssigned_eq_false

end Machine

/-! ## Assembled programs -/

/-- Encoding any decoded word of an assembled program gives the word back; so no word is a jump by
negative zero, and the system calls are the three assigned ones with no further bit set. The
program's own source file is assembled to the same words, and no step or run of a machine loaded
with them, after any calls, fails with an unassigned system call. -/
theorem assembled_words_canonical {src : Text} {p : Program} (h : assemble src = .ok p) :
    (∀ w ∈ p.words, (Word.decode w).fields.encode = .ok w ∧ w ≠ 0xD0 ∧
      (w.opcode = .syscall → w = 0xE0 ∨ w = 0xE1 ∨ w = 0xE2)) ∧
    (∃ q, assemble (Listing.source p.words) = .ok q ∧ q.words = p.words) ∧
    ∀ (console : Console) (calls : List Machine.Call),
      ∀ r ∈ (Machine.load p.words console).session calls, ∀ trap, r.1.trap? = some trap →
        ∀ id, trap.cause ≠ .unassignedSyscall id := by
  have hassigned : ∀ w ∈ p.words, (Word.decode w).isAssigned = true := by
    intro w hw
    obtain ⟨i, hi, rfl⟩ := exists_instruction_of_mem h hw
    rw [decode_word]
    exact hi
  -- a word that was made from an instruction is the one that its instruction has
  have hcanonical : ∀ w ∈ p.words, w.canonical = w := by
    intro w hw
    obtain ⟨i, _, rfl⟩ := exists_instruction_of_mem h hw
    rw [← word_decode, decode_word]
  refine ⟨?_, ?_, ?_⟩
  · intro w hw
    have hencode : (Word.decode w).fields.encode = .ok w := by
      rw [encode_fields (hassigned w hw), word_decode, hcanonical w hw]
    exact ⟨hencode, canonical_of_encode_decode w hencode⟩
  · have hnone : ∀ w ∈ p.words, w.isUnassigned = false := by
      intro w hw
      have hw := hassigned w hw
      rw [isAssigned_decode] at hw
      exact (Bool.not_eq_true' _).mp hw
    obtain ⟨q, hq, hwords, _, _⟩ := words_assemble_source hnone
    exact ⟨q, hq, hwords.trans ((List.map_congr_left hcanonical).trans (List.map_id _))⟩
  · intro console calls r hr trap htrap id
    -- a trap comes from a step of a machine with this program, which decodes no other instructions
    obtain ⟨m, hm, hstep⟩ := Machine.session_trap calls hr htrap
    refine Machine.step_ne_unassigned ?_ hstep id
    rw [hm]
    exact hassigned

/-- Zero with a minus sign, also through a macro, a label at no distance, and symbols with further
characters after them. -/
def spelledSource : Text :=
  utf8 "🔓 go\n♿ _\n🔒\n💬\n♿ -0\ngo -000\nhere:\n♿ here\n👈 🍩x 007\n🤖 📢️\n🤖 🔪"

/-- All three spellings of no distance are one word, and what follows a symbol leaves no trace. -/
theorem assembled_words_canonical_spelled :
    ∃ p, assemble spelledSource = .ok p ∧ p.words = [0xC0, 0xC0, 0xC0, 0xA7, 0xE0, 0xE2] ∧
      (∀ w ∈ p.words, (Word.decode w).fields.encode = .ok w) ∧
      (∃ q, assemble (Listing.source p.words) = .ok q ∧ q.words = p.words) ∧
      ∀ (console : Console) (calls : List Machine.Call),
        ∀ r ∈ (Machine.load p.words console).session calls, ∀ trap, r.1.trap? = some trap →
          ∀ id, trap.cause ≠ .unassignedSyscall id := by
  have hwords : (assemble spelledSource).map Program.words =
      .ok [0xC0, 0xC0, 0xC0, 0xA7, 0xE0, 0xE2] := by decide +kernel
  obtain ⟨p, hp, hwords⟩ := map_eq_ok_iff.mp hwords
  obtain ⟨hencode, hsource, hsession⟩ := assembled_words_canonical hp
  exact ⟨p, hp, hwords, fun w hw => (hencode w hw).1, hsource, hsession⟩

end Glyph8
