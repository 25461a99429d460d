import Glyph8.Machine.Console
import Mathlib.Data.List.TakeDrop
import Mathlib.Data.List.TakeWhile

/-!
# What consoles do

A print adds a line to the output or changes nothing. A read prompts if there is someone to prompt,
takes a line from the input and looks for a value on it; so even a read that fails has an effect.

The function that takes a line splits the input at its first newline and looks at both parts. Proofs
need the other direction: how the input is made up. `NextLine` lists the four ways in which an input
can go on: with a line, with a last line that has no newline, at its end, and at an error, which
takes with it what stands before it. Every input goes on in one of them (`exists_nextLine`), and a
read answers accordingly (`read_of_nextLine`).

`Later` collects what consoles keep. The input is only used up from the front, how it ends and
whether someone is prompted do not change, and the room for output gets no larger. It is reflexive
and transitive, and holds for a print and for a read, so it holds for any sequence of them.
-/

namespace Glyph8

theorem Sink.text_push (s : Sink) (t : Text) : (s.push t).text = s.text ++ t := by
  unfold text push
  rw [List.reverse_cons, List.flatten_append, List.flatten_singleton]

namespace Console

/-! ## Printing -/

/-- A print for which there is room adds its line. -/
theorem print_of_fits {c : Console} {v : UInt8} (h : c.output.fits (printed v) = true) :
    c.print v = (.ok (), { c with output := c.output.push (printed v) }) := by
  unfold print Sink.write?
  rw [if_pos h]

/-- A print for which there is no room fails and changes nothing. -/
theorem print_of_full {c : Console} {v : UInt8} (h : c.output.fits (printed v) = false) :
    c.print v = (.error .outputFull, c) := by
  unfold print Sink.write?
  rw [if_neg (by rw [h]; decide)]

/-! ## Reading -/

/-- The next line of an input, or why there is none, and what is left after it. -/
inductive NextLine (input : Text) (failure : Option Text) :
    Except ConsoleError Text → Text → Prop where
  | line {line rest : Text} (hinput : input = line ++ Text.newline :: rest)
      (hline : Text.newline ∉ line) : NextLine input failure (.ok line) rest
  /-- At its simple end, the input may leave out the last newline. -/
  | last (hne : input ≠ []) (hline : Text.newline ∉ input) (hend : failure = none) :
      NextLine input failure (.ok input) []
  | atEnd (hinput : input = []) (hend : failure = none) :
      NextLine input failure (.error .endOfInput) []
  /-- An error takes with it what stands before it on its line. -/
  | failed {cause : Text} (hline : Text.newline ∉ input) (hcause : failure = some cause) :
      NextLine input failure (.error (.inputFailed cause)) []

variable {c : Console} {input rest : Text} {failure : Option Text}
  {line : Except ConsoleError Text}

/-- Every input goes on in one of the four ways. -/
theorem exists_nextLine (input : Text) (failure : Option Text) :
    ∃ line rest, NextLine input failure line rest := by
  by_cases hmem : Text.newline ∈ input
  · obtain ⟨line, rest, hinput, hline⟩ := List.eq_append_cons_of_mem hmem
    exact ⟨.ok line, rest, .line hinput hline⟩
  · cases failure with
    | some cause => exact ⟨.error (.inputFailed cause), [], .failed hmem rfl⟩
    | none =>
      by_cases hne : input = []
      · exact ⟨.error .endOfInput, [], .atEnd hne rfl⟩
      · exact ⟨.ok input, [], .last hne hmem rfl⟩

theorem ne_newline_of_mem (hline : Text.newline ∉ input) :
    ∀ b ∈ input, (b != Text.newline) = true := by
  intro b hb
  exact bne_iff_ne.mpr fun heq => hline (heq ▸ hb)

/-- Where the first newline is, there the input is split. -/
theorem span_newline {line : Text} (hline : Text.newline ∉ line) (rest : Text) :
    (line ++ Text.newline :: rest).span (· != Text.newline) = (line, Text.newline :: rest) := by
  have hall := ne_newline_of_mem hline
  rw [List.span_eq_takeWhile_dropWhile, List.takeWhile_append_of_pos hall,
    List.dropWhile_append_of_pos hall, List.takeWhile_cons_of_neg (by decide),
    List.dropWhile_cons_of_neg (by decide), List.append_nil]

theorem span_of_not_mem (hline : Text.newline ∉ input) :
    input.span (· != Text.newline) = (input, []) := by
  have hall := ne_newline_of_mem hline
  rw [List.span_eq_takeWhile_dropWhile, List.takeWhile_eq_self_iff.mpr hall,
    List.dropWhile_eq_nil_iff.mpr hall]

theorem takeLine_of_nextLine (h : NextLine c.input c.failure line rest) :
    c.takeLine = (line, { c with input := rest }) := by
  unfold takeLine
  cases h with
  | line hinput hline => rw [hinput, span_newline hline rest]
  | last hne hline hend =>
    rw [span_of_not_mem hline]
    simp only [hend]
    rw [if_neg (by rwa [List.isEmpty_iff])]
  | atEnd hinput hend =>
    rw [span_of_not_mem (by rw [hinput]; exact List.not_mem_nil)]
    simp only [hinput, hend]
    rfl
  | failed hline hcause =>
    rw [span_of_not_mem hline]
    simp only [hcause]

/-- A value is read exactly from a line that is one when trimmed. -/
theorem bind_value_eq_ok_iff {v : UInt8} :
    line.bind value = .ok v ↔ ∃ text, line = .ok text ∧ text.trim.byte? = some v := by
  cases line with
  | error e => exact ⟨nofun, nofun⟩
  | ok text =>
    show value text = .ok v ↔ _
    unfold value
    cases hv : text.trim.byte? with
    | none => simp [hv]
    | some w => simp [hv]

theorem prompt_input (c : Console) : c.prompt.input = c.input := by
  unfold prompt
  split <;> rfl

theorem prompt_failure (c : Console) : c.prompt.failure = c.failure := by
  unfold prompt
  split <;> rfl

/-- A read prompts, takes the next line and looks for a value on it. -/
theorem read_of_nextLine (h : NextLine c.input c.failure line rest) :
    c.read = (line.bind value, { c.prompt with input := rest }) := by
  rw [← c.prompt_input, ← c.prompt_failure] at h
  unfold read
  rw [takeLine_of_nextLine h]

/-! ## Later consoles -/

/-- A console that `c` may have become. -/
structure Later (c d : Console) : Prop where
  input : d.input <:+ c.input
  failure : d.failure = c.failure
  interactive : d.interactive = c.interactive
  room : ∃ spent, d.output.room = c.output.room.map (· - spent)

theorem Later.refl (c : Console) : c.Later c :=
  ⟨List.suffix_rfl, rfl, rfl, 0, by cases c.output.room <;> rfl⟩

theorem Later.trans {c d e : Console} (h : c.Later d) (h' : d.Later e) : c.Later e := by
  obtain ⟨spent, hroom⟩ := h.room
  obtain ⟨spent', hroom'⟩ := h'.room
  refine ⟨h'.input.trans h.input, h'.failure.trans h.failure,
    h'.interactive.trans h.interactive, spent + spent', ?_⟩
  rw [hroom', hroom, Option.map_map]
  congr 1
  funext n
  exact Nat.sub_sub n spent spent'

theorem later_push (c : Console) (t : Text) : c.Later { c with output := c.output.push t } :=
  ⟨List.suffix_rfl, rfl, rfl, t.length, rfl⟩

theorem later_prompt (c : Console) : c.Later c.prompt := by
  unfold prompt Sink.offer Sink.write?
  split
  · by_cases hfits : c.output.fits promptText = true
    · rw [if_pos hfits]
      exact c.later_push _
    · rw [if_neg hfits]
      exact .refl c
  · exact .refl c

/-- Taking a line leaves the end of the input. -/
theorem NextLine.suffix (h : NextLine input failure line rest) : rest <:+ input := by
  cases h with
  | @line line _ hinput =>
    rw [hinput]
    exact (List.suffix_cons _ _).trans (List.suffix_append _ _)
  | last | atEnd | failed => exact List.nil_suffix

/-- A read leaves a later console, whatever it returns. -/
theorem NextLine.later (h : NextLine c.input c.failure line rest) :
    c.Later { c.prompt with input := rest } :=
  { c.later_prompt with input := h.suffix }

end Console

end Glyph8
