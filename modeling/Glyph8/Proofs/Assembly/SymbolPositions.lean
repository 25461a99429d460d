import Glyph8.Proofs.Assembly.JumpTargets
import Glyph8.Proofs.Text.Tokens

/-!
# What the first pass records

The first pass classifies a line by its statement, and other modules speak of statements as well.
Here lines are looked at by their tokens alone, which is what someone who reads a source file sees:
a label line is one token that ends in a colon (`Line.Labels`), and every other line with a token is
an instruction line (`Line.isInstruction`). A jump refers to the second token of its line, even if
more tokens follow (`Line.jumpReference?`).

`Survey.Records` lists what a successful pass has recorded. Its table has each label with one more
than the number of instruction lines before it, positions lie between one and one past the last
instruction, a later label has no smaller position, and the operands of all jumps are there in
order.

The first pass succeeds exactly if no label is empty or defined twice (`DistinctLabels`); otherwise
it reports the first line that breaks the rule. The main result is `survey_specified`. It is
obtained from what is known of statements by translating each notion: `distinctLabels_iff` for the
labels, `length_instructionLines` for the positions and `bind_reference?` for the jumps.
-/

namespace Glyph8

/-! ## Kinds of lines -/

namespace Line

/-- The line defines a label: its only token is the label and a colon. -/
def Labels (line : Line) (name : Text) : Prop := tokens line.text = [name ++ [labelMark]]

/-- The line has tokens and defines no label. -/
def isInstruction (line : Line) : Bool :=
  !(tokens line.text).isEmpty && (label? (tokens line.text)).isNone

/-- The second token of a line whose first token spells a jump, with the number of the line. -/
def jumpReference? (line : Line) : Option JumpReference :=
  match tokens line.text with
  | head :: target :: _ =>
    if Opcode.ofToken? head = some .jump then some ⟨target, line.num⟩ else none
  | _ => none

variable {line : Line} {name : Text}

/-- A line states a label exactly if it is one token with a colon at its end. -/
theorem statement_eq_label_iff : line.statement = .label name ↔ line.Labels name := by
  constructor
  · exact Statement.tokens_of_label
  · intro h
    unfold statement
    rw [show tokens line.text = _ from h]
    exact Statement.ofTokens_label name

theorem labelName?_eq_some_iff_labels : line.labelName? = some name ↔ line.Labels name :=
  labelName?_eq_some_iff.trans statement_eq_label_iff

/-- A line is an instruction exactly if it has tokens and is no label. -/
theorem isSome_ofLine? (line : Line) :
    (InstructionLine.ofLine? line).isSome = line.isInstruction := by
  unfold InstructionLine.ofLine? statement Statement.ofTokens isInstruction
  cases tokens line.text with
  | nil => rfl
  | cons head operands =>
    cases hlabel : label? (head :: operands) with
    | none => simp [hlabel]
    | some name => simp [hlabel]

/-- A line with two tokens defines no label, so a jump on it is an instruction. -/
theorem bind_reference? (line : Line) :
    (InstructionLine.ofLine? line).bind InstructionLine.reference? = line.jumpReference? := by
  unfold InstructionLine.ofLine? statement Statement.ofTokens jumpReference?
  rcases tokens line.text with _ | ⟨head, _ | ⟨target, rest⟩⟩
  · rfl
  · cases hlabel : label? [head] with
    | some name => simp [hlabel]
    | none => simp [hlabel, InstructionLine.reference?, Survey.jumpTarget?]
  · by_cases hjump : Opcode.ofToken? head = some .jump
    · simp [label?, InstructionLine.reference?, Survey.jumpTarget?, hjump]
    · simp [label?, InstructionLine.reference?, Survey.jumpTarget?, hjump]

end Line

/-- Counting instruction lines is counting lines by their tokens. -/
theorem length_instructionLines (code : List Line) :
    (instructionLines code).length = code.countP Line.isInstruction := by
  unfold instructionLines
  rw [List.length_filterMap_eq_countP]
  exact List.countP_congr fun line _ => by rw [Line.isSome_ofLine?]

/-! ## Labels -/

/-- No line defines the empty label, and no two lines define the same. -/
def DistinctLabels (code : List Line) : Prop :=
  (∀ line ∈ code, ¬line.Labels []) ∧
    code.Pairwise fun a b => ∀ name, a.Labels name → ¬b.Labels name

/-- Labels are clean exactly if no line breaks the rule. -/
theorem distinctLabels_iff {code : List Line} : DistinctLabels code ↔ CleanLabels code := by
  have hempty : (∀ line ∈ code, ¬line.Labels []) ↔ [] ∉ labelNames code := by
    rw [mem_labelNames_iff]
    simp only [Line.statement_eq_label_iff, not_exists, not_and]
  have htwice : (code.Pairwise fun a b => ∀ name, a.Labels name → ¬b.Labels name) ↔
      (labelNames code).Nodup := by
    unfold labelNames List.Nodup
    rw [List.pairwise_filterMap]
    simp only [Line.labelName?_eq_some_iff_labels]
    constructor
    · intro h
      refine h.imp ?_
      intro a b hab name hname other hother heq
      exact hab name hname (heq ▸ hother)
    · intro h
      refine h.imp ?_
      intro a b hab name hname hother
      exact hab name hname name hother rfl
  unfold DistinctLabels
  rw [hempty, htwice]
  exact ⟨fun h => ⟨h.1, h.2⟩, fun h => ⟨h.nonempty, h.nodup⟩⟩

/-! ## The table -/

/-- What the first pass has recorded of the code. -/
structure Survey.Records (s : Survey) (code : List Line) : Prop where
  /-- The table has the labels, each with one more than the number of instruction lines before it.
  -/
  position : ∀ (name : Text) (pc : Nat), s.symbols.find? name = some pc ↔
    ∃ before line after, code = before ++ line :: after ∧ line.Labels name ∧
      pc = 1 + before.countP Line.isInstruction
  range : ∀ (name : Text) (pc : Nat), s.symbols.find? name = some pc →
    1 ≤ pc ∧ pc ≤ code.countP Line.isInstruction + 1
  /-- Of two labels, the later one has no smaller position. -/
  ordered : code.Pairwise fun a b => ∀ (name later : Text) (pc pc' : Nat), a.Labels name →
    b.Labels later → s.symbols.find? name = some pc → s.symbols.find? later = some pc' → pc ≤ pc'
  jumps : s.jumps = code.filterMap Line.jumpReference?

section

variable {code : List Line} {s : Survey}

/-- A label is found at one more than the number of instruction lines before it. -/
theorem find?_survey_iff_labels (h : survey code = .ok s) {name : Text} {pc : Nat} :
    s.symbols.find? name = some pc ↔
      ∃ before line after, code = before ++ line :: after ∧ line.Labels name ∧
        pc = 1 + before.countP Line.isInstruction := by
  rw [find?_survey_iff h]
  constructor
  · intro hfind
    obtain ⟨k, ⟨before, line, after, hcode, hlabel, hk⟩, rfl⟩ := hfind
    refine ⟨before, line, after, hcode, Line.statement_eq_label_iff.mp hlabel, ?_⟩
    rw [← length_instructionLines, hk, Nat.add_comm]
  · intro hfind
    obtain ⟨before, line, after, hcode, hlabel, rfl⟩ := hfind
    refine ⟨_, ⟨before, line, after, hcode, Line.statement_eq_label_iff.mpr hlabel, rfl⟩, ?_⟩
    rw [length_instructionLines, Nat.add_comm]

/-- The position of a label is that of its line, which is the only one to define it. -/
theorem position_of_labels (h : survey code = .ok s) {before after : List Line} {line : Line}
    {name : Text} {pc : Nat} (hcode : code = before ++ line :: after) (hlabel : line.Labels name)
    (hfind : s.symbols.find? name = some pc) : pc = 1 + before.countP Line.isInstruction := by
  have hpos := (find?_survey_iff_labels h).mpr ⟨before, line, after, hcode, hlabel, rfl⟩
  exact Option.some.inj (hfind.symm.trans hpos)

/-- A successful first pass has recorded all that there is. -/
theorem records_of_survey (h : survey code = .ok s) : s.Records code := by
  refine ⟨fun _ _ => find?_survey_iff_labels h, ?_, ?_, ?_⟩
  · intro name pc hfind
    obtain ⟨before, line, after, rfl, _, rfl⟩ := (find?_survey_iff_labels h).mp hfind
    rw [List.countP_append]
    omega
  · rw [List.pairwise_iff_forall_sublist]
    intro a b hab name later pc pc' ha hb hpc hpc'
    obtain ⟨front, back, hcode, hmem, hback⟩ := List.cons_sublist_iff.mp hab
    obtain ⟨before, between, rfl⟩ := List.append_of_mem hmem
    obtain ⟨between', after, rfl⟩ := List.append_of_mem (List.singleton_sublist.mp hback)
    have hfirst : code = before ++ a :: (between ++ between' ++ b :: after) := by
      rw [hcode]
      simp
    have hsecond : code = (before ++ (a :: between ++ between')) ++ b :: after := by
      rw [hcode]
      simp
    -- no fewer instruction lines come before the second label than before the first
    rw [position_of_labels h hfirst ha hpc, position_of_labels h hsecond hb hpc',
      List.countP_append]
    omega
  · rw [jumps_of_survey h]
    unfold instructionLines
    rw [List.filterMap_filterMap]
    exact congrArg (List.filterMap · code) (funext Line.bind_reference?)

end

/-- What the first pass does, said by the tokens of the lines. -/
theorem survey_specified (code : List Line) :
    ((∃ s, survey code = .ok s) ↔ DistinctLabels code) ∧
      (∀ s, survey code = .ok s → s.Records code) ∧
      ∀ d, survey code = .error d → ∃ before line after name, code = before ++ line :: after ∧
        DistinctLabels before ∧ line.Labels name ∧
          (name = [] ∧ d = ⟨line.num, .emptyLabel⟩ ∨
            (∃ earlier ∈ before, earlier.Labels name) ∧ d = ⟨line.num, .duplicateLabel name⟩) := by
  refine ⟨exists_survey_iff.trans distinctLabels_iff.symm, fun _ => records_of_survey, ?_⟩
  intro d h
  obtain ⟨before, line, after, name, hcode, hclean, hlabel, hline, hbad⟩ := survey_error h
  refine ⟨before, line, after, name, hcode, distinctLabels_iff.mpr hclean,
    Line.statement_eq_label_iff.mp hlabel, ?_⟩
  cases d with
  | mk num fault =>
    obtain rfl : num = line.num := hline
    rcases hbad with ⟨hempty, hfault⟩ | ⟨hdup, hfault⟩
    · exact Or.inl ⟨hempty, congrArg _ hfault⟩
    · obtain ⟨earlier, hmem, hearlier⟩ := mem_labelNames_iff.mp hdup
      exact Or.inr ⟨⟨earlier, hmem, Line.statement_eq_label_iff.mp hearlier⟩, congrArg _ hfault⟩

/-- A label before a comment, one that ends in a colon itself, and words that are no labels. -/
def labelledLines : List Line :=
  numbered 5 [utf8 "♿ end:", utf8 "top: # here", utf8 "# x:", utf8 "x: 👈", utf8 "end::"]

/-- The same code, and then a label again and an empty one. -/
def relabelledLines : List Line := labelledLines ++ [⟨10, utf8 "top:"⟩, ⟨11, utf8 ":"⟩]

/-- A colon inside a label belongs to its name, and a word before others is no label. -/
theorem survey_specified_each :
    (∃ s, survey labelledLines = .ok s ∧ s.symbols.find? (utf8 "end:") = some 3 ∧
      s.jumps = [⟨utf8 "end:", 5⟩]) ∧
      survey relabelledLines = .error ⟨10, .duplicateLabel (utf8 "top")⟩ ∧
      ∃ before line after name, relabelledLines = before ++ line :: after ∧
        DistinctLabels before ∧ line.Labels name ∧ line.num = 10 := by
  refine ⟨?_, ?_⟩
  · have hsurvey : survey labelledLines =
        .ok ⟨⟨[(utf8 "top", 2), (utf8 "end:", 3)]⟩, 2, [⟨utf8 "end:", 5⟩]⟩ := by decide +kernel
    have hrecords := (survey_specified labelledLines).2.1 _ hsurvey
    refine ⟨_, hsurvey, ?_, hrecords.jumps.trans (by decide +kernel)⟩
    exact (hrecords.position _ 3).mpr ⟨labelledLines.take 4, ⟨9, utf8 "end::"⟩, [],
      by decide +kernel,
      (by decide +kernel : Line.tokens (utf8 "end::") = _), by decide +kernel⟩
  · have hsurvey : survey relabelledLines = .error ⟨10, .duplicateLabel (utf8 "top")⟩ := by
      decide +kernel
    obtain ⟨before, line, after, name, hcode, hdistinct, hlabel, hbad⟩ :=
      (survey_specified relabelledLines).2.2 _ hsurvey
    refine ⟨hsurvey, before, line, after, name, hcode, hdistinct, hlabel, ?_⟩
    rcases hbad with ⟨_, hd⟩ | ⟨_, hd⟩ <;> exact (Diagnostic.mk.inj hd).1.symm

end Glyph8
