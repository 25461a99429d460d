import Glyph8.Assembly.Program
import Glyph8.Proofs.Attempt

/-!
# Labels and their positions

The first pass carries a table and a counter along the code. Each instruction line adds one to the
counter, and each label is entered with the counter's value plus one, the position of the
instruction after it. What the table holds at the end is a property of the code, and this module
says which.

`labelPositions` lists each label with the number of instructions before it, plus one, by recursion
on the code and without a table. `Surveyed` is the invariant of the pass: the table has the entries
of the code passed so far, no label twice, and the counter is the number of instruction lines. One
more line keeps it (`Surveyed.visit`), so a successful pass ends with it (`survey_labels`).

`LabelAfter` says the same of a single label, by taking the code apart at the label's line. Look-up
in the table then reads: a label is found at `t` exactly when its line comes after `t - 1`
instruction lines (`find?_survey_iff`). Since look-up finds the first entry, this needs that no
label is entered twice, which the pass has checked.
-/

namespace Glyph8

/-! ## Instruction lines of parts of the code -/

theorem instructionLines_append (a b : List Line) :
    instructionLines (a ++ b) = instructionLines a ++ instructionLines b :=
  List.filterMap_append

/-- Only an instruction line counts. -/
theorem length_instructionLines_cons (line : Line) (rest : List Line) :
    (instructionLines (line :: rest)).length =
      (match line.statement with
        | .instruction _ _ => 1
        | _ => 0) + (instructionLines rest).length := by
  unfold instructionLines
  rw [List.filterMap_cons]
  cases hs : line.statement with
  | blank => simp [InstructionLine.ofLine?, hs]
  | label name => simp [InstructionLine.ofLine?, hs]
  | instruction head operands =>
    simp only [InstructionLine.ofLine?, hs, List.length_cons]
    omega

/-! ## Positions of labels -/

/-- Every label of the code with its position, if `count` instructions come before the code. -/
def labelPositions (count : Nat) : List Line → List (Text × Nat)
  | [] => []
  | line :: rest =>
    match line.statement with
    | .blank => labelPositions count rest
    | .label name => (name, count + 1) :: labelPositions count rest
    | .instruction _ _ => labelPositions (count + 1) rest

/-- Labels further down are counted on from the instructions above them. -/
theorem labelPositions_append (a b : List Line) :
    ∀ count : Nat, labelPositions count (a ++ b) =
      labelPositions count a ++ labelPositions (count + (instructionLines a).length) b := by
  induction a with
  | nil => intro count; rfl
  | cons line a ih =>
    intro count
    rw [length_instructionLines_cons, List.cons_append]
    cases hs : line.statement with
    | blank =>
      simp only [labelPositions, hs, Nat.zero_add]
      exact ih count
    | label name =>
      simp only [labelPositions, hs, Nat.zero_add, List.cons_append]
      rw [ih count]
    | instruction head operands =>
      simp only [labelPositions, hs]
      rw [ih (count + 1), Nat.add_assoc]

/-- The line that defines the label `name` comes after exactly `count` instruction lines. -/
def LabelAfter (code : List Line) (name : Text) (count : Nat) : Prop :=
  ∃ before line after, code = before ++ line :: after ∧ line.statement = .label name ∧
    (instructionLines before).length = count

/-- A label stands on the first line, or further down with the first line before it. -/
theorem labelAfter_cons_iff {line : Line} {rest : List Line} {name : Text} {count : Nat} :
    LabelAfter (line :: rest) name count ↔
      (line.statement = .label name ∧ count = 0) ∨
        ∃ k, LabelAfter rest name k ∧
          count = (match line.statement with
            | .instruction _ _ => 1
            | _ => 0) + k := by
  constructor
  · rintro ⟨before, l, after, hcode, hl, hcount⟩
    -- the label is on the first line, or on a later one with the first line before it
    cases before with
    | nil =>
      rw [List.nil_append] at hcode
      injection hcode with h1 h2
      exact Or.inl ⟨h1 ▸ hl, hcount.symm⟩
    | cons b before =>
      rw [List.cons_append] at hcode
      injection hcode with h1 h2
      subst h1
      rw [length_instructionLines_cons] at hcount
      exact Or.inr ⟨_, ⟨before, l, after, h2, hl, rfl⟩, hcount.symm⟩
  · rintro (⟨hl, rfl⟩ | ⟨k, ⟨before, l, after, hcode, hl, hk⟩, hcount⟩)
    · exact ⟨[], line, rest, rfl, hl, rfl⟩
    · refine ⟨line :: before, l, after, by rw [hcode, List.cons_append], hl, ?_⟩
      rw [length_instructionLines_cons, hk, hcount]

/-- The list of labels has exactly those that stand in the code, each with its position. -/
theorem mem_labelPositions_iff {name : Text} {t : Nat} :
    ∀ {code : List Line} {count : Nat},
      (name, t) ∈ labelPositions count code ↔ ∃ k, LabelAfter code name k ∧ t = count + k + 1 := by
  intro code
  induction code with
  | nil =>
    intro count
    constructor
    · intro h; cases h
    · rintro ⟨k, ⟨before, line, after, hcode, _⟩, _⟩
      exact absurd hcode (by simp)
  | cons line rest ih =>
    intro count
    simp only [labelAfter_cons_iff]
    cases hs : line.statement with
    | blank =>
      simp only [labelPositions, hs, ih]
      constructor
      · rintro ⟨k, hk, rfl⟩
        exact ⟨k, Or.inr ⟨k, hk, by omega⟩, rfl⟩
      · rintro ⟨k, ⟨h, _⟩ | ⟨k', hk', rfl⟩, rfl⟩
        · cases h
        · exact ⟨k', hk', by omega⟩
    | label other =>
      simp only [labelPositions, hs, List.mem_cons, Prod.mk.injEq, Statement.label.injEq, ih]
      constructor
      · rintro (⟨rfl, rfl⟩ | ⟨k, hk, rfl⟩)
        · -- no instruction stands before the label on the first line
          exact ⟨0, Or.inl ⟨rfl, rfl⟩, rfl⟩
        · exact ⟨k, Or.inr ⟨k, hk, by omega⟩, rfl⟩
      · rintro ⟨k, ⟨rfl, rfl⟩ | ⟨k', hk', rfl⟩, rfl⟩
        · exact Or.inl ⟨rfl, rfl⟩
        · exact Or.inr ⟨k', hk', by omega⟩
    | instruction head operands =>
      simp only [labelPositions, hs, ih]
      constructor
      · -- the instruction counts, for the position here and for what comes before the label there
        rintro ⟨k, hk, rfl⟩
        exact ⟨1 + k, Or.inr ⟨k, hk, rfl⟩, by omega⟩
      · rintro ⟨k, ⟨h, _⟩ | ⟨k', hk', rfl⟩, rfl⟩
        · cases h
        · exact ⟨k', hk', by omega⟩

/-! ## Symbol tables -/

namespace SymbolTable

theorem contains_eq_false_iff {t : SymbolTable} {name : Text} :
    t.contains name = false ↔ name ∉ t.entries.map Prod.fst := by
  unfold contains find?
  rw [Option.isSome_eq_false_iff, Option.isNone_iff_eq_none, List.lookup_eq_none_iff]
  simp only [List.mem_map, not_exists, not_and, bne_iff_ne]
  exact ⟨fun h p hp he => h p hp he.symm, fun h p hp he => h p hp he.symm⟩

/-- A new label goes to the end of the table. -/
theorem entries_insert_of_not_contains {t : SymbolTable} {name : Text}
    (h : t.contains name = false) (position : Nat) :
    (t.insert name position).entries = t.entries ++ [(name, position)] := by
  rw [contains_eq_false_iff] at h
  show t.entries.filter _ ++ _ = _
  rw [List.filter_eq_self.mpr]
  intro p hp
  exact bne_iff_ne.mpr fun he => h (he ▸ List.mem_map_of_mem hp)

/-- In a table without repeated labels, look-up is membership. -/
theorem find?_eq_some_iff_mem {t : SymbolTable} (hnd : (t.entries.map Prod.fst).Nodup)
    {name : Text} {position : Nat} :
    t.find? name = some position ↔ (name, position) ∈ t.entries := by
  unfold find?
  constructor
  · intro h
    obtain ⟨l₁, l₂, hl, _⟩ := List.lookup_eq_some_iff.mp h
    rw [hl]
    exact List.mem_append_right _ List.mem_cons_self
  · intro h
    obtain ⟨l₁, l₂, hl⟩ := List.append_of_mem h
    refine List.lookup_eq_some_iff.mpr ⟨l₁, l₂, hl, ?_⟩
    intro p hp
    rw [hl, List.map_append, List.nodup_append] at hnd
    rw [bne_iff_ne]
    intro he
    exact hnd.2.2 p.1 (List.mem_map_of_mem hp) name (by simp) he.symm

end SymbolTable

/-! ## The first pass -/

/-- What the first pass has found in the code it has passed. -/
structure Surveyed (code : List Line) (s : Survey) : Prop where
  entries : s.symbols.entries = labelPositions 0 code
  nodup : (s.symbols.entries.map Prod.fst).Nodup
  count : s.count = (instructionLines code).length

/-- One more line keeps what has been found. -/
theorem Surveyed.visit {done : List Line} {s s' : Survey} {line : Line}
    (hs : Surveyed done s) (h : s.visit line = .ok s') : Surveyed (done ++ [line]) s' := by
  have hpos := labelPositions_append done [line] 0
  have hlen := length_instructionLines_cons line []
  unfold Survey.visit at h
  cases hl : line.statement with
  | blank =>
    simp only [hl, Except.ok.injEq] at h hlen
    subst h
    refine ⟨?_, hs.nodup, ?_⟩
    · rw [hpos, ← hs.entries]; simp [labelPositions, hl]
    · rw [instructionLines_append, List.length_append, hlen, hs.count]; rfl
  | label name =>
    simp only [hl] at h hlen
    split at h
    · cases h
    · split at h
      · cases h
      · next hnew =>
        -- the label is new, so it goes to the end, where the positions of the code have it too
        rw [Bool.not_eq_true] at hnew
        simp only [Except.ok.injEq] at h
        subst h
        have hentries := SymbolTable.entries_insert_of_not_contains hnew (s.count + 1)
        rw [SymbolTable.contains_eq_false_iff] at hnew
        refine ⟨?_, ?_, ?_⟩
        · rw [hentries, hpos, ← hs.entries, ← hs.count]
          simp [labelPositions, hl]
        · show ((s.symbols.insert name (s.count + 1)).entries.map Prod.fst).Nodup
          rw [hentries, List.map_append]
          refine List.nodup_append.mpr ⟨hs.nodup, by simp, ?_⟩
          intro a ha b hb he
          have hb : b = name := List.mem_singleton.mp hb
          exact hnew (hb ▸ he ▸ ha)
        · rw [instructionLines_append, List.length_append, hlen]
          exact hs.count
  | instruction head operands =>
    simp only [hl, Except.ok.injEq] at h hlen
    subst h
    refine ⟨?_, hs.nodup, ?_⟩
    · rw [hpos, ← hs.entries]; simp [labelPositions, hl]
    · rw [instructionLines_append, List.length_append, hlen, ← hs.count]; rfl

/-- A successful first pass has found every label, each once, and counted every instruction. -/
theorem survey_labels {code : List Line} {s : Survey} (h : survey code = .ok s) :
    Surveyed code s := by
  have h0 : Surveyed [] {} := ⟨rfl, List.nodup_nil, rfl⟩
  unfold survey at h
  exact foldlM_invariant (fun _ _ _ _ hs hv => hs.visit hv) code [] {} s h0 h

/-- Look-up in the table of a successful first pass. -/
theorem find?_survey_iff {code : List Line} {s : Survey} (h : survey code = .ok s)
    {name : Text} {t : Nat} :
    s.symbols.find? name = some t ↔ ∃ k, LabelAfter code name k ∧ t = k + 1 := by
  have hs := survey_labels h
  rw [SymbolTable.find?_eq_some_iff_mem hs.nodup, hs.entries, mem_labelPositions_iff]
  simp only [Nat.zero_add]

/-- No more instruction lines come before a label than there are. -/
theorem LabelAfter.le {code : List Line} {name : Text} {k : Nat} (h : LabelAfter code name k) :
    k ≤ (instructionLines code).length := by
  obtain ⟨before, line, after, rfl, _, rfl⟩ := h
  rw [instructionLines_append, List.length_append]
  omega

end Glyph8
