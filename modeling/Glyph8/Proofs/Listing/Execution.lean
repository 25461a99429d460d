import Glyph8.Proofs.Listing.Reassembly
import Glyph8.Proofs.Machine.Alike

/-!
# Running a reassembled executable

Writing an executable as a source file and assembling that may change its words. A jump by negative
zero comes back as a jump by zero, and a system call loses the bits that it does not use. But a word
and its canonical spelling decode to the same instruction, and the machine decodes each word before
it executes it. So it cannot tell the two executables apart.

Machines are compared by `Machine.Alike`: same registers, same console, and programs whose words
decode alike. Two machines that have just been loaded with the executables are alike
(`alike_load_canonical`), and everything that a session can do keeps machines alike. The main result
is `session_reassembled`: any calls have the same replies, with the same errors, and leave states
that differ in the program only.

The hypothesis is that the source file can be assembled. It fails exactly for executables with an
unassigned system call.
-/

namespace Glyph8

/-- If the source file of an executable can be assembled, the words are in canonical spelling. -/
theorem words_of_assemble_source {code : List Word} {p : Program}
    (h : assemble (Listing.source code) = .ok p) : p.words = code.map Word.canonical := by
  have hassigned : ∀ w ∈ code, w.isUnassigned = false := by
    have hsource := Listing.assemble_source code
    rw [h] at hsource
    cases hidx : code.findIdx? Word.isUnassigned with
    | none => exact List.findIdx?_eq_none_iff.mp hidx
    | some i =>
      rw [hidx] at hsource
      cases hsource
  obtain ⟨p', hp', hwords, _, _⟩ := words_assemble_source hassigned
  rw [h] at hp'
  rw [Except.ok.inj hp', hwords]

/-- Machines loaded with words and with their canonical spelling are alike. -/
theorem alike_load_canonical (code : List Word) (console : Console) :
    Machine.Alike True (.load (code.map Word.canonical) console) (.load code console) where
  program := by
    show (code.map Word.canonical).toArray.map Word.decode = code.toArray.map Word.decode
    rw [List.map_toArray, List.map_toArray, List.map_map]
    exact congrArg List.toArray (List.map_congr_left fun w _ => decode_canonical w)
  registers := rfl
  pc := rfl
  halted := rfl
  console := ⟨rfl, rfl, rfl, rfl, fun _ => rfl⟩
  steps _ := rfl

/-- An executable that can be reassembled runs as before: on any console, any steps and runs have
the same replies, with the same errors, and leave machines that differ in the program only. -/
theorem session_reassembled {code : List Word} {p : Program}
    (h : assemble (Listing.source code) = .ok p) (console : Console)
    (calls : List Machine.Call) :
    (Machine.load p.words console).session calls =
      ((Machine.load code console).session calls).map fun (reply, m) =>
        (reply, { m with program := p.words.toArray }) := by
  rw [words_of_assemble_source h]
  exact Machine.Alike.session calls (alike_load_canonical code console)

/-- A jump by negative zero and a system call with unused bits set, which reassembly both changes.
-/
theorem session_reassembled_changed :
    ∃ p, assemble (Listing.source [0xA5, 0xFC, 0xD0]) = .ok p ∧ p.words = [0xA5, 0xE0, 0xC0] ∧
      (Machine.load p.words {}).session [.step, .run 2, .run 4] =
        ((Machine.load [0xA5, 0xFC, 0xD0] {}).session [.step, .run 2, .run 4]).map
          fun (reply, m) => (reply, { m with program := p.words.toArray }) := by
  have hassigned : ∀ w ∈ ([0xA5, 0xFC, 0xD0] : List Word), w.isUnassigned = false := by
    simp only [List.forall_mem_cons]
    exact ⟨by decide, by decide, by decide, nofun⟩
  obtain ⟨p, hp, hwords, _, _⟩ := words_assemble_source hassigned
  exact ⟨p, hp, hwords, session_reassembled hp {} [.step, .run 2, .run 4]⟩

end Glyph8
