import Glyph8.Proofs.Machine.Console
import Glyph8.Proofs.Text.Decimals
import Glyph8.Proofs.Text.Rows

/-!
# Reads are framed by lines

An input is read line by line, so one might expect that every read gets one line, in order, whatever
the lines hold and whatever happens in between. This module proves it.

The input of a console is a list of lines, each with its newline (`linesOf`). At the simple end of
the input the last newline may be left out; before an error it may not, since an error takes with it
what stands before it. A read takes the first line, whatever is on it, and a line that is no value
is used up as well (`read_of_lines`). A print takes none. So after any calls a read sees the line
whose index is the number of reads before it (`lines_after`), by induction on the calls.

What a read returns depends on that line alone: the value that is left when blanks are trimmed from
both ends (`value_eq_ok_iff`). The newline is one of the blanks, so it does not matter that a line
comes without it from the input and with it in the list. Blanks are those of Unicode, so trimming
has to be done by characters and not by bytes (`trimRunes_append_blank`).

The main result is `reads_framed_by_lines`. It also says that the lines together are the input, so
nothing is lost between them.
-/

namespace Glyph8

/-! ## Trimmed lines -/

namespace Text

/-- A blank at the end is trimmed away. -/
theorem trimRunes_append_blank {r : Rune} (h : r.isBlank = true) (rs : List Rune) :
    trimRunes (rs ++ [r]) = trimRunes rs := by
  unfold trimRunes
  rw [List.dropWhile_append]
  by_cases hempty : (rs.dropWhile Rune.isBlank).isEmpty = true
  · rw [if_pos hempty, List.isEmpty_iff.mp hempty, List.dropWhile_cons_of_pos h]
    rfl
  · rw [if_neg hempty, List.reverse_append, List.reverse_singleton, List.singleton_append,
      List.dropWhile_cons_of_pos h]

/-- A newline at the end is trimmed away, also after bytes that are no character. -/
theorem trim_append_newline (t : Text) : trim (t ++ [newline]) = trim t := by
  unfold trim
  rw [runes_append_ascii (by decide)]
  exact congrArg Rune.encode (trimRunes_append_blank (by decide) t.runes)

end Text

namespace Console

/-- The lines of an input. What follows the last newline is a line if there is something and the
input simply ends. -/
def linesOf (input : Text) (failure : Option Text) : List Text :=
  input.endedLines ++ if failure = none ∧ input.unended ≠ [] then [input.unended] else []

/-- What a read reports if there is no line left. -/
def ending : Option Text → ConsoleError
  | none => .endOfInput
  | some cause => .inputFailed cause

/-- The lines that have not been read yet. -/
def lines (c : Console) : List Text := linesOf c.input c.failure

/-! ## One read -/

section

variable {input rest text : Text} {failure : Option Text}

theorem linesOf_line {line : Text} (h : Text.newline ∉ line) (rest : Text) (failure : Option Text) :
    linesOf (line ++ Text.newline :: rest) failure =
      (line ++ [Text.newline]) :: linesOf rest failure := by
  unfold linesOf
  rw [Text.endedLines_line h, Text.unended_line h, List.cons_append]

theorem linesOf_nil (failure : Option Text) : linesOf [] failure = [] := by
  unfold linesOf
  rw [Text.endedLines_of_not_mem List.not_mem_nil, Text.unended_of_not_mem List.not_mem_nil,
    if_neg fun h => h.2 rfl]
  rfl

/-- The next line is the first line, but for its newline. -/
theorem NextLine.linesOf_of_ok (h : NextLine input failure (.ok text) rest) :
    ∃ line, linesOf input failure = line :: linesOf rest failure ∧ input = line ++ rest ∧
      line.trim = text.trim := by
  cases h with
  | line hinput hline =>
    refine ⟨text ++ [Text.newline], ?_, ?_, Text.trim_append_newline text⟩
    · rw [hinput, linesOf_line hline]
    · rw [hinput, List.append_assoc, List.singleton_append]
  | last hne hline hend =>
    -- all of the input is the line, and no input has no lines
    refine ⟨input, ?_, (List.append_nil input).symm, rfl⟩
    rw [linesOf_nil]
    unfold linesOf
    rw [Text.endedLines_of_not_mem hline, Text.unended_of_not_mem hline, if_pos ⟨hend, hne⟩,
      List.nil_append]

/-- If there is no next line, there are no lines at all. -/
theorem NextLine.linesOf_of_error {e : ConsoleError} (h : NextLine input failure (.error e) rest) :
    linesOf input failure = [] ∧ rest = [] ∧ e = ending failure := by
  cases h with
  | atEnd hinput hend => exact ⟨hinput ▸ linesOf_nil failure, rfl, hend ▸ rfl⟩
  | failed hline hcause =>
    refine ⟨?_, rfl, hcause ▸ rfl⟩
    unfold linesOf
    rw [Text.endedLines_of_not_mem hline, hcause, if_neg fun h => nomatch h.1]
    rfl

end

theorem value_congr {line text : Text} (h : line.trim = text.trim) : value line = value text := by
  unfold value
  rw [h]

/-- A read takes the first line, and if there is none, what is left of the input. -/
theorem read_of_lines (c : Console) :
    (∃ line, c.lines = line :: c.read.2.lines ∧ c.input = line ++ c.read.2.input ∧
      c.read.1 = value line) ∨
      c.lines = [] ∧ c.read.2.input = [] ∧ c.read.1 = .error (ending c.failure) := by
  obtain ⟨next, rest, hnext⟩ := exists_nextLine c.input c.failure
  rw [read_of_nextLine hnext]
  unfold lines
  show (∃ line, _ = line :: linesOf rest c.prompt.failure ∧ _) ∨ _
  rw [prompt_failure]
  cases next with
  | ok text =>
    obtain ⟨line, hlines, hinput, htrim⟩ := hnext.linesOf_of_ok
    exact Or.inl ⟨line, hlines, hinput, value_congr htrim.symm⟩
  | error e =>
    obtain ⟨hlines, hrest, rfl⟩ := hnext.linesOf_of_error
    exact Or.inr ⟨hlines, hrest, rfl⟩

theorem read_failure (c : Console) : c.read.2.failure = c.failure := by
  obtain ⟨next, rest, hnext⟩ := exists_nextLine c.input c.failure
  rw [read_of_nextLine hnext]
  exact c.prompt_failure

/-- A read uses up a line, or there was none. -/
theorem lines_read (c : Console) : c.read.2.lines = c.lines.drop 1 := by
  rcases c.read_of_lines with ⟨line, hlines, _⟩ | ⟨hlines, hinput, _⟩
  · rw [hlines, List.drop_one, List.tail_cons]
  · rw [hlines, lines, hinput, linesOf_nil, List.drop_nil]

/-- A print leaves the input alone. -/
theorem print_keeps (c : Console) (v : UInt8) :
    (c.print v).2.input = c.input ∧ (c.print v).2.failure = c.failure := by
  cases hfits : c.output.fits (printed v) with
  | true => rw [print_of_fits hfits]; exact ⟨rfl, rfl⟩
  | false => rw [print_of_full hfits]; exact ⟨rfl, rfl⟩

/-- A line is a value if it is one in decimal when trimmed. -/
theorem value_eq_ok_iff {line : Text} {v : UInt8} :
    value line = .ok v ↔ line.trim.IsDecimal v.toNat := by
  rw [← Text.byte?_eq_some_iff]
  unfold value
  cases line.trim.byte? with
  | none => exact ⟨nofun, nofun⟩
  | some w =>
    exact ⟨fun h => congrArg some (Except.ok.inj h), fun h => congrArg _ (Option.some.inj h)⟩

/-- A line that is no value is reported as it is when trimmed. -/
theorem value_of_not_decimal {line : Text} (h : ∀ v : UInt8, ¬line.trim.IsDecimal v.toNat) :
    value line = .error (.notValue line.trim) := by
  have hnone : line.trim.byte? = none :=
    Option.eq_none_iff_forall_ne_some.mpr fun v hv => h v (Text.byte?_eq_some_iff.mp hv)
  unfold value
  rw [hnone]

/-! ## Many calls -/

/-- What can be asked of a console. -/
inductive Call where
  | read
  | print (v : UInt8)
deriving DecidableEq

/-- The console after a call, whether or not the call failed. -/
def perform (c : Console) : Call → Console
  | .read => c.read.2
  | .print v => (c.print v).2

/-- The console after a sequence of calls. -/
def after (c : Console) (calls : List Call) : Console := calls.foldl perform c

theorem perform_failure (c : Console) (call : Call) : (c.perform call).failure = c.failure := by
  cases call with
  | read => exact c.read_failure
  | print v => exact (c.print_keeps v).2

/-- One call uses up one line if it is a read, and none otherwise. -/
theorem lines_perform (c : Console) (call : Call) :
    (c.perform call).lines = c.lines.drop ([call].count .read) := by
  cases call with
  | read => exact c.lines_read
  | print v =>
    obtain ⟨hinput, hfailure⟩ := c.print_keeps v
    show linesOf (c.print v).2.input (c.print v).2.failure = c.lines
    rw [hinput, hfailure]
    rfl

/-- Only reads use up lines, and each uses up one. -/
theorem lines_after (c : Console) (calls : List Call) :
    (c.after calls).lines = c.lines.drop (calls.count .read) ∧
      (c.after calls).failure = c.failure := by
  induction calls generalizing c with
  | nil => exact ⟨rfl, rfl⟩
  | cons call calls ih =>
    obtain ⟨hlines, hfailure⟩ := ih (c.perform call)
    refine ⟨?_, hfailure.trans (c.perform_failure call)⟩
    show ((c.perform call).after calls).lines = _
    rw [hlines, lines_perform, List.drop_drop, ← List.count_append, List.singleton_append]

/-! ## What a read returns -/

/-- The lines are the input, but for the part that an error takes with it. -/
theorem flatten_lines (c : Console) :
    c.input = c.lines.flatten ++ if c.failure = none then [] else c.input.unended := by
  unfold lines linesOf
  by_cases hend : c.failure = none
  · by_cases hne : c.input.unended = []
    · have hall := c.input.flatten_endedLines_append
      rw [hne, List.append_nil] at hall
      rw [if_pos hend, if_neg fun h => h.2 hne, List.append_nil, List.append_nil, hall]
    · rw [if_pos hend, if_pos ⟨hend, hne⟩, List.flatten_append, List.flatten_singleton,
        List.append_nil]
      exact c.input.flatten_endedLines_append.symm
  · rw [if_neg hend, if_neg fun h => hend h.1, List.append_nil]
    exact c.input.flatten_endedLines_append.symm

/-- After any calls, `k` of them reads, a read takes the line with index `k`. It returns the value
that this line is when trimmed, and fails if it is none. When no line is left, it fails as the input
ends. -/
theorem reads_framed_by_lines (c : Console) (calls : List Call) :
    (∀ line, c.lines[calls.count .read]? = some line →
      (∀ v : UInt8, (c.after calls).read.1 = .ok v ↔ line.trim.IsDecimal v.toNat) ∧
      ((∀ v : UInt8, ¬line.trim.IsDecimal v.toNat) →
        (c.after calls).read.1 = .error (.notValue line.trim)) ∧
      (c.after calls).input = line ++ (c.after calls).read.2.input) ∧
    (c.lines.length ≤ calls.count .read →
      (c.after calls).read.1 = .error (ending c.failure) ∧ (c.after calls).read.2.input = []) ∧
    c.input = c.lines.flatten ++ if c.failure = none then [] else c.input.unended := by
  obtain ⟨hlines, hfailure⟩ := c.lines_after calls
  refine ⟨?_, ?_, c.flatten_lines⟩
  · intro line hline
    rcases (c.after calls).read_of_lines with ⟨first, hfirst, hinput, hread⟩ | ⟨hnone, _⟩
    · -- the line with that index is the first of those that are left
      have hsame : first = line := by
        rw [← List.head?_drop, ← hlines, hfirst] at hline
        exact Option.some.inj hline
      rw [hread, ← hsame]
      exact ⟨fun _ => value_eq_ok_iff, value_of_not_decimal, hinput⟩
    · rw [← List.head?_drop, ← hlines, hnone] at hline
      cases hline
  · intro hlength
    rcases (c.after calls).read_of_lines with ⟨first, hfirst, _⟩ | ⟨_, hinput, hread⟩
    · rw [hlines, List.drop_eq_nil_of_le hlength] at hfirst
      cases hfirst
    · exact ⟨hread.trans (by rw [hfailure]), hinput⟩

/-- An empty line, a value between blanks that are not ASCII, a number that is too large, and a
value without a newline. -/
def unevenInput : Console := { input := utf8 "\n\u00a07\u3000\r\n256\n9" }

/-- An input that breaks off within its second line. -/
def brokenInput : Console := { input := utf8 "5\n6", failure := some (utf8 "cut") }

/-- Failed reads use up their lines, and prints between them use up none. -/
theorem reads_framed_by_lines_each :
    unevenInput.read.1 = .error (.notValue []) ∧
      (unevenInput.after [.read, .print 200]).read.1 = .ok 7 ∧
      (unevenInput.after [.read, .print 1, .read]).read.1 = .error (.notValue (utf8 "256")) ∧
      (unevenInput.after [.read, .read, .read]).read.1 = .ok 9 ∧
      (unevenInput.after [.read, .read, .print 0, .read, .read]).read.1 = .error .endOfInput ∧
      brokenInput.read.1 = .ok 5 ∧
      (brokenInput.after [.read]).read.1 = .error (.inputFailed (utf8 "cut")) := by
  have hnot : ∀ t : Text, t.byte? = none → ∀ v : UInt8, ¬t.IsDecimal v.toNat := by
    intro t ht v hv
    exact Option.some_ne_none v ((Text.byte?_eq_some_iff.mpr hv).symm.trans ht)
  refine ⟨?_, ?_, ?_, ?_, ?_, ?_, ?_⟩
  · exact ((reads_framed_by_lines unevenInput []).1 (utf8 "\n") (by decide +kernel)).2.1
      (hnot _ (by decide +kernel))
  · exact (((reads_framed_by_lines unevenInput [.read, .print 200]).1 (utf8 "\u00a07\u3000\r\n")
      (by decide +kernel)).1 7).mpr (Text.isDecimal_iff.mpr (by decide +kernel))
  · exact ((reads_framed_by_lines unevenInput [.read, .print 1, .read]).1 (utf8 "256\n")
      (by decide +kernel)).2.1 (hnot _ (by decide +kernel))
  · exact (((reads_framed_by_lines unevenInput [.read, .read, .read]).1 (utf8 "9")
      (by decide +kernel)).1 9).mpr (Text.isDecimal_iff.mpr (by decide +kernel))
  · exact ((reads_framed_by_lines unevenInput [.read, .read, .print 0, .read, .read]).2.1
      (by decide +kernel)).1
  · exact (((reads_framed_by_lines brokenInput []).1 (utf8 "5\n") (by decide +kernel)).1 5).mpr
      (Text.isDecimal_iff.mpr (by decide +kernel))
  · exact ((reads_framed_by_lines brokenInput [.read]).2.1 (by decide +kernel)).1

end Console

end Glyph8
