import Glyph8.Proofs.Assembly.Labels

/-!
# Empty and repeated labels

The first pass walks along the code with a table and a counter, and stops at the first label that it
cannot enter. This module says on which code it succeeds, without the walk.

`CleanLabels` holds of code in which no label is empty and none is defined twice. It is a property
of the list of labels alone: `labelNames` leaves out everything else, so neither instruction lines
nor positions matter. The first pass succeeds exactly on clean code (`exists_survey_iff`), and then
its table is that of all labels with their positions (`symbols_of_survey`).

Otherwise it fails at the first label that is empty or repeats an earlier one. `FirstBadLabel` says
this of a diagnostic: the code before the line is clean, and the label of the line spoils it. Code
with a first bad label is not clean (`FirstBadLabel.not_clean`), so the two cases exclude each other
and one of them always holds.

Together with the second pass this gives `assembleCode_eq_ok_iff`: code is assembled exactly if its
labels are clean and every instruction line can be encoded with their table.
-/

namespace Glyph8

/-- The label that a line defines. -/
def Line.labelName? (line : Line) : Option Text :=
  match line.statement with
  | .label name => some name
  | _ => none

/-- The labels of the code, in order. -/
def labelNames (code : List Line) : List Text := code.filterMap Line.labelName?

/-- The table of all labels of the code with their positions. -/
def labelTable (code : List Line) : SymbolTable := ⟨labelPositions 0 code⟩

/-- No label of the code is empty, and none is defined twice. -/
structure CleanLabels (code : List Line) : Prop where
  nonempty : [] ∉ labelNames code
  nodup : (labelNames code).Nodup

instance (code : List Line) : Decidable (CleanLabels code) :=
  decidable_of_iff ([] ∉ labelNames code ∧ (labelNames code).Nodup)
    ⟨fun h => ⟨h.1, h.2⟩, fun h => ⟨h.nonempty, h.nodup⟩⟩

section

variable {code : List Line} {line : Line} {name : Text}

/-- A line has a label exactly if it is a label line. -/
theorem Line.labelName?_eq_some_iff :
    line.labelName? = some name ↔ line.statement = .label name := by
  unfold Line.labelName?
  cases line.statement with
  | blank => simp
  | label other => simp
  | instruction head operands => simp

theorem labelNames_append (a b : List Line) : labelNames (a ++ b) = labelNames a ++ labelNames b :=
  List.filterMap_append

theorem mem_labelNames_iff :
    name ∈ labelNames code ↔ ∃ line ∈ code, line.statement = .label name := by
  unfold labelNames
  simp only [List.mem_filterMap, Line.labelName?_eq_some_iff]

/-- The labels with positions are the labels. -/
theorem map_fst_labelPositions :
    ∀ (code : List Line) (count : Nat),
      (labelPositions count code).map Prod.fst = labelNames code := by
  intro code
  induction code with
  | nil => intro count; rfl
  | cons line code ih =>
    intro count
    unfold labelNames at ih ⊢
    rw [List.filterMap_cons]
    cases hs : line.statement with
    | blank => simp only [labelPositions, Line.labelName?, hs, ih]
    | label name => simp only [labelPositions, Line.labelName?, hs, List.map_cons, ih]
    | instruction head operands => simp only [labelPositions, Line.labelName?, hs, ih]

theorem map_fst_labelTable (code : List Line) :
    (labelTable code).entries.map Prod.fst = labelNames code :=
  map_fst_labelPositions code 0

theorem find?_labelTable_isSome_iff :
    ((labelTable code).find? name).isSome = true ↔ name ∈ labelNames code := by
  show (labelTable code).contains name = true ↔ _
  rw [← not_iff_not, Bool.not_eq_true, SymbolTable.contains_eq_false_iff,
    map_fst_labelTable]

end

/-! ## The first pass -/

/-- A line fails the first pass only as a label that is empty or already known. -/
theorem Survey.visit_error {s : Survey} {line : Line} {d : Diagnostic}
    (h : s.visit line = .error d) :
    ∃ name, line.statement = .label name ∧
      (name = [] ∧ d = ⟨line.num, .emptyLabel⟩ ∨
        s.symbols.contains name = true ∧ d = ⟨line.num, .duplicateLabel name⟩) := by
  unfold Survey.visit at h
  cases hs : line.statement with
  | blank =>
    simp only [hs] at h
    cases h
  | instruction head operands =>
    simp only [hs] at h
    cases h
  | label name =>
    simp only [hs] at h
    refine ⟨name, rfl, ?_⟩
    -- an empty name is reported before a repeated one
    by_cases hempty : name.isEmpty = true
    · rw [if_pos hempty] at h
      exact Or.inl ⟨List.isEmpty_iff.mp hempty, (Except.error.inj h).symm⟩
    · rw [if_neg hempty] at h
      by_cases hdup : s.symbols.contains name = true
      · rw [if_pos hdup] at h
        exact Or.inr ⟨hdup, (Except.error.inj h).symm⟩
      · rw [if_neg hdup] at h
        cases h

section

variable {code : List Line} {s : Survey}

/-- The table of a successful first pass holds each label with its position. -/
theorem symbols_of_survey (h : survey code = .ok s) : s.symbols = labelTable code :=
  congrArg SymbolTable.mk (survey_labels h).entries

/-- Code that passes has clean labels: an empty or repeated one would have stopped the pass. -/
theorem cleanLabels_of_survey (h : survey code = .ok s) : CleanLabels code := by
  have hs := survey_labels h
  constructor
  · -- the pass would have stopped at an empty label
    intro hmem
    obtain ⟨line, hline, hlabel⟩ := mem_labelNames_iff.mp hmem
    obtain ⟨before, after, rfl⟩ := List.append_of_mem hline
    unfold survey at h
    rw [List.foldlM_append] at h
    obtain ⟨t, _, h⟩ := bind_eq_ok_iff.mp h
    rw [List.foldlM_cons] at h
    obtain ⟨u, hu, _⟩ := bind_eq_ok_iff.mp h
    unfold Survey.visit at hu
    simp only [hlabel] at hu
    cases hu
  · rw [← map_fst_labelPositions code 0, ← hs.entries]
    exact hs.nodup

end

/-- `d` reports the first label of the code that is empty or repeats an earlier one. -/
def FirstBadLabel (code : List Line) (d : Diagnostic) : Prop :=
  ∃ before line after name, code = before ++ line :: after ∧ CleanLabels before ∧
    line.statement = .label name ∧ d.line = line.num ∧
      (name = [] ∧ d.fault = .emptyLabel ∨
        name ∈ labelNames before ∧ d.fault = .duplicateLabel name)

/-- The first pass stops at the first label that is empty or repeated. -/
theorem survey_error {code : List Line} {d : Diagnostic} (h : survey code = .error d) :
    FirstBadLabel code d := by
  unfold survey at h
  obtain ⟨before, line, after, t, rfl, ht, hline⟩ := exists_of_foldlM_error h
  have ht : survey before = .ok t := ht
  obtain ⟨name, hlabel, hd⟩ := Survey.visit_error hline
  have hknown : t.symbols.contains name = true → name ∈ labelNames before := by
    rw [symbols_of_survey ht]
    exact find?_labelTable_isSome_iff.mp
  refine ⟨before, line, after, name, rfl, cleanLabels_of_survey ht, hlabel, ?_, ?_⟩
  · rcases hd with ⟨_, rfl⟩ | ⟨_, rfl⟩ <;> rfl
  · rcases hd with ⟨hempty, rfl⟩ | ⟨hdup, rfl⟩
    · exact Or.inl ⟨hempty, rfl⟩
    · exact Or.inr ⟨hknown hdup, rfl⟩

/-- A bad label anywhere spoils the whole code. -/
theorem FirstBadLabel.not_clean {code : List Line} {d : Diagnostic} (h : FirstBadLabel code d) :
    ¬ CleanLabels code := by
  intro hclean
  obtain ⟨before, line, after, name, rfl, _, hlabel, _, hbad⟩ := h
  have hname : name ∈ labelNames (line :: after) :=
    mem_labelNames_iff.mpr ⟨line, List.mem_cons_self, hlabel⟩
  rcases hbad with ⟨rfl, _⟩ | ⟨hearlier, _⟩
  · apply hclean.nonempty
    rw [labelNames_append]
    exact List.mem_append_right _ hname
  · have hnodup := hclean.nodup
    rw [labelNames_append] at hnodup
    exact (List.nodup_append.mp hnodup).2.2 name hearlier name hname rfl

/-- The first pass succeeds exactly on code with clean labels. -/
theorem exists_survey_iff {code : List Line} : (∃ s, survey code = .ok s) ↔ CleanLabels code := by
  constructor
  · rintro ⟨s, hs⟩
    exact cleanLabels_of_survey hs
  · intro hclean
    cases hs : survey code with
    | ok s => exact ⟨s, rfl⟩
    | error d => exact absurd hclean (survey_error hs).not_clean

/-- Code is assembled exactly if its labels are clean and every instruction line can be encoded. -/
theorem assembleCode_eq_ok_iff {code : List Line} {p : Program} :
    assembleCode code = .ok p ↔ CleanLabels code ∧
      encodeAll (labelTable code) code = .ok p.placed ∧ p.symbols = labelTable code := by
  unfold assembleCode
  constructor
  · intro h
    obtain ⟨s, hs, h⟩ := bind_eq_ok_iff.mp h
    obtain ⟨placed, hplaced, hp⟩ := bind_eq_ok_iff.mp h
    rw [symbols_of_survey hs] at hplaced hp
    cases hp
    exact ⟨cleanLabels_of_survey hs, hplaced, rfl⟩
  · rintro ⟨hclean, hplaced, hsymbols⟩
    obtain ⟨s, hs⟩ := exists_survey_iff.mpr hclean
    rw [hs, ok_bind, symbols_of_survey hs, hplaced, ok_bind, ← hsymbols]
    rfl

end Glyph8
