import Glyph8.Proofs.Text.Endings

/-!
# Rows

A text is seen here as the lines that end in a newline, each with its newline, and what follows the
last newline. `endedLines` and `unended` are these two parts, and together they are the whole text
(`flatten_endedLines_append`). This is the view of someone who reads output that may have been cut
off: a line without its newline is not complete.

A row is a text that has one newline, at its end. A text that is written as rows has exactly these
rows, and nothing after them (`endedLines_flatten`, `unended_flatten`). So rows can be recovered
from the text of a table, one by one, without knowing how many there are.

The definitions split a text at every newline. The lemmas on one line (`endedLines_line`,
`unended_line`) take the first line off, and the statements about rows follow by induction on the
rows.
-/

namespace Glyph8.Text

/-! ## Lines with their newlines -/

/-- The lines of a text that end in a newline, each with its newline. -/
def endedLines (t : Text) : List Text := (t.splitOn newline).dropLast.map (· ++ [newline])

/-- What follows the last newline of a text. -/
def unended (t : Text) : Text := (t.splitOn newline).getLast (List.splitOn_ne_nil _ _)

section

variable {t line : Text}

theorem endedLines_of_not_mem (h : newline ∉ t) : endedLines t = [] := by
  unfold endedLines
  rw [List.splitOn_eq_singleton h]
  rfl

theorem unended_of_not_mem (h : newline ∉ t) : unended t = t := by
  unfold unended
  simp only [List.splitOn_eq_singleton h, List.getLast_singleton]

theorem splitOn_line (h : newline ∉ line) (rest : Text) :
    (line ++ newline :: rest).splitOn newline = line :: rest.splitOn newline := by
  rw [splitOn_append_newline, List.splitOn_eq_singleton h, List.singleton_append]

/-- The first line of a text ends at the first newline. -/
theorem endedLines_line (h : newline ∉ line) (rest : Text) :
    endedLines (line ++ newline :: rest) = (line ++ [newline]) :: endedLines rest := by
  unfold endedLines
  rw [splitOn_line h, List.dropLast_cons_of_ne_nil (List.splitOn_ne_nil _ _), List.map_cons]

/-- What follows the last newline does not depend on the first line. -/
theorem unended_line (h : newline ∉ line) (rest : Text) :
    unended (line ++ newline :: rest) = unended rest := by
  unfold unended
  simp only [splitOn_line h]
  exact List.getLast_cons (List.splitOn_ne_nil _ _)

end

/-- The lines that end in a newline and what follows them are the whole text. -/
theorem flatten_endedLines_append (t : Text) : t.endedLines.flatten ++ t.unended = t := by
  induction h : t.length using Nat.strong_induction_on generalizing t with
  | _ n ih =>
    by_cases hmem : newline ∈ t
    · obtain ⟨line, rest, rfl, hline⟩ := List.eq_append_cons_of_mem hmem
      rw [List.length_append, List.length_cons] at h
      rw [endedLines_line hline, unended_line hline, List.flatten_cons, List.append_assoc,
        ih rest.length (by omega) rest rfl, List.append_assoc, List.singleton_append]
    · rw [endedLines_of_not_mem hmem, unended_of_not_mem hmem]
      rfl

/-! ## Texts made of rows -/

/-- A text that has one newline, at its end. -/
def IsRow (row : Text) : Prop := ∃ line, newline ∉ line ∧ row = line ++ [newline]

section

variable {rows : List Text}

/-- The lines of a text that is made of rows are the rows. -/
theorem endedLines_flatten (h : ∀ row ∈ rows, IsRow row) : endedLines rows.flatten = rows := by
  induction rows with
  | nil => exact endedLines_of_not_mem List.not_mem_nil
  | cons row rows ih =>
    obtain ⟨line, hline, rfl⟩ := h row List.mem_cons_self
    rw [List.flatten_cons, List.append_assoc, List.singleton_append, endedLines_line hline,
      ih fun row hrow => h row (List.mem_cons_of_mem _ hrow)]

theorem unended_flatten (h : ∀ row ∈ rows, IsRow row) : unended rows.flatten = [] := by
  induction rows with
  | nil => exact unended_of_not_mem List.not_mem_nil
  | cons row rows ih =>
    obtain ⟨line, hline, rfl⟩ := h row List.mem_cons_self
    rw [List.flatten_cons, List.append_assoc, List.singleton_append, unended_line hline,
      ih fun row hrow => h row (List.mem_cons_of_mem _ hrow)]

end

end Glyph8.Text
