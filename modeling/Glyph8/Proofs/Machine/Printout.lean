import Glyph8.Proofs.Machine.Framing
import Glyph8.Proofs.Text.Columns
import Glyph8.Proofs.Text.Sinks

/-!
# Printed values are read back

Programs can be put in a row, with what one prints as the input of the next. For this to work,
values have to survive: each print must be one line, and a read of that line must give the value.

A print writes a value in decimal, with a newline. The digits have no newline among them and are not
trimmed away, so the line is a row (`isRow_printed`) on which the value is found (`value_printed`).
The rows of several prints together are an input whose lines are these rows (`linesOf_flatten`).

The rest is what is known about reads: after any calls, a read finds the line whose index is the
number of reads among them (`read_after`). The second program may therefore print between its reads,
and its reads get the values one at a time and in order, and then the end of the input.

The main result is `printed_values_read_back`. The output of the first console must have no limit,
for a print that is refused is a value that is lost, and the second must have nothing else to read.
-/

namespace Glyph8

/-- Without blanks there is nothing to trim. -/
theorem Text.trim_of_solid {t : Text} (h : ∀ r ∈ t.runes, r.isBlank = false) : t.trim = t := by
  have hkept : ∀ rs : List Rune, (∀ r ∈ rs, r.isBlank = false) →
      rs.dropWhile Rune.isBlank = rs := by
    intro rs hrs
    cases rs with
    | nil => rfl
    | cons r rs =>
      apply List.dropWhile_cons_of_neg
      rw [hrs r List.mem_cons_self]
      decide
  unfold trim trimRunes
  rw [hkept t.runes h, hkept _ fun r hr => h r (List.mem_reverse.mp hr), List.reverse_reverse,
    encode_runes]

namespace Console

/-! ## One value -/

theorem isRow_printed (v : UInt8) : (printed v).IsRow :=
  ⟨Text.decimal v.toNat, (Text.canBeToken_decimal v.toNat).newline_not_mem, rfl⟩

/-- Trimming takes the newline from a printed value, and nothing else. -/
theorem trim_printed (v : UInt8) : (printed v).trim = Text.decimal v.toNat := by
  show Text.trim (Text.decimal v.toNat ++ [Text.newline]) = _
  rw [Text.trim_append_newline]
  exact Text.trim_of_solid (Text.canBeToken_decimal v.toNat).not_blank

/-- A printed value is read back. -/
theorem value_printed (v : UInt8) : value (printed v) = .ok v := by
  unfold value
  rw [trim_printed, Text.byte?_decimal]

/-! ## All values -/

/-- If there is no limit, every print succeeds and adds its row. -/
theorem print_of_unlimited {c : Console} (h : c.output.room = none) (v : UInt8) :
    c.print v = (.ok (), { c with output := c.output.push (printed v) }) :=
  print_of_fits (Sink.fits_of_unlimited h _)

/-- Prints without a limit add their lines one after the other. -/
theorem after_prints {c : Console} (h : c.output.room = none) (values : List UInt8) :
    c.after (values.map .print) =
      { c with output := c.output.pushAll (values.map printed) } := by
  induction values generalizing c with
  | nil => rfl
  | cons v values ih =>
    show Console.after (c.print v).2 (values.map .print) = _
    rw [print_of_unlimited h]
    exact ih (Sink.room_push_of_unlimited h _)

/-- The rows of an input that simply ends are its lines. -/
theorem linesOf_flatten {rows : List Text} (h : ∀ row ∈ rows, row.IsRow) :
    linesOf rows.flatten none = rows := by
  unfold linesOf
  rw [Text.endedLines_flatten h, Text.unended_flatten h, if_neg fun hlast => hlast.2 rfl,
    List.append_nil]

/-- What a read finds after any calls: the line whose index is the number of reads among them. -/
theorem read_after (c : Console) (calls : List Call) :
    (c.after calls).read.1 =
      (c.lines[calls.count .read]?).elim (.error (ending c.failure)) value := by
  obtain ⟨hlines, hfailure⟩ := c.lines_after calls
  rw [← List.head?_drop, ← hlines]
  rcases (c.after calls).read_of_lines with ⟨line, hline, _, hread⟩ | ⟨hnone, _, hread⟩
  · rw [hread, hline]
    rfl
  · rw [hread, hnone, hfailure]
    rfl

/-- Every print to an output without a limit succeeds. If what was printed is the whole input of a
second console, then the read that comes after any calls there, `k` of them reads, returns the value
with index `k`, and fails at the end of the input if all values have been read. -/
theorem printed_values_read_back {writer reader : Console} (values : List UInt8)
    (hroom : writer.output.room = none)
    (hinput : reader.input = (writer.after (values.map .print)).output.since writer.output)
    (hend : reader.failure = none) :
    (∀ before v after, values = before ++ v :: after →
      ((writer.after (before.map .print)).print v).1 = .ok ()) ∧
    ∀ calls : List Call, (reader.after calls).read.1 =
      (values[calls.count .read]?).elim (.error .endOfInput) .ok := by
  have hrows : reader.lines = values.map printed := by
    unfold lines
    rw [hinput, hend, after_prints hroom, Sink.since_pushAll]
    apply linesOf_flatten
    intro row hrow
    obtain ⟨v, _, rfl⟩ := List.mem_map.mp hrow
    exact isRow_printed v
  refine ⟨?_, ?_⟩
  · intro before v after _
    rw [after_prints hroom, print_of_unlimited (Sink.room_pushAll_of_unlimited hroom _)]
  · intro calls
    rw [read_after, hrows, hend, List.getElem?_map]
    cases values[calls.count .read]? with
    | none => rfl
    | some v => exact value_printed v

/-- An input of three printed values. -/
def threeValues : Console := { input := utf8 "0\n255\n7\n" }

/-- The three values come in order, and then the end, however often it is asked for. -/
theorem printed_values_read_back_three :
    threeValues.input =
        (({} : Console).after ([0, 255, 7].map .print)).output.since ({} : Console).output ∧
      threeValues.read.1 = .ok 0 ∧
      (threeValues.after [.read, .print 9]).read.1 = .ok 255 ∧
      (threeValues.after [.read, .read]).read.1 = .ok 7 ∧
      (threeValues.after [.read, .read, .read]).read.1 = .error .endOfInput ∧
      (threeValues.after [.read, .read, .read, .read]).read.1 = .error .endOfInput := by
  have hinput : threeValues.input =
      (({} : Console).after ([0, 255, 7].map .print)).output.since ({} : Console).output := by
    decide +kernel
  obtain ⟨_, hreads⟩ := printed_values_read_back [0, 255, 7] rfl hinput rfl
  exact ⟨hinput, hreads [], hreads [.read, .print 9], hreads [.read, .read],
    hreads [.read, .read, .read], hreads [.read, .read, .read, .read]⟩

end Console

end Glyph8
