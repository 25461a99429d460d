import Glyph8.Proofs.Assembly.Encoding
import Glyph8.Proofs.Assembly.Expanding

/-!
# Lines that read alike

Assembling looks only at the tokens of lines, and hands line numbers on as they are. So it does not
matter how a line is spaced or what comment it has, and a change of the line numbers is seen in the
result and nowhere else.

`Line.Like N` relates two lines with the same tokens and numbers in a relation `N`. Each kind of
object on the way to a program has such a relation: diagnostics, macros, surveys, instruction lines,
placed words and programs. Each stage is shown to take related inputs to related results or to
related errors, by a lemma for one line and the general lemmas on chains that end alike. The main
result is `assembleCode_like`: code whose lines read alike is assembled alike.

The relation `N` is left open on purpose. With equality, it says that only tokens matter. With a
shift, it says that code can be moved down in the text. With a function, `renumber` turns the
relation into an equation (`EndsAlike.eq_renumber`). And with no condition at all, it compares codes
whose line numbers have nothing to do with each other.

Macros are alike if their bodies have the same tokens for every argument. They are sorted by the
length of their names before they are looked up, so sorting has to respect the relation
(`forall₂_mergeSort`).
-/

namespace Glyph8

/-! ## What is alike -/

/-- Both lines have the same tokens, and numbers in the relation `N`. -/
structure Line.Like (N : Int → Int → Prop) (a b : Line) : Prop where
  num : N a.num b.num
  tokens : Line.tokens a.text = Line.tokens b.text

/-- Both diagnostics have the same fault. -/
structure Diagnostic.Like (N : Int → Int → Prop) (d e : Diagnostic) : Prop where
  line : N d.line e.line
  fault : d.fault = e.fault

/-- Both instruction lines have the same tokens. -/
structure InstructionLine.Like (N : Int → Int → Prop) (k l : InstructionLine) : Prop where
  num : N k.num l.num
  head : k.head = l.head
  operands : k.operands = l.operands

/-- Both words are the same. -/
structure PlacedWord.Like (N : Int → Int → Prop) (v w : PlacedWord) : Prop where
  line : N v.line w.line
  word : v.word = w.word

/-- Both programs have the same words and symbols. -/
structure Program.Like (N : Int → Int → Prop) (p q : Program) : Prop where
  placed : List.Forall₂ (PlacedWord.Like N) p.placed q.placed
  symbols : p.symbols = q.symbols

/-- What assembling gave, with every line number changed by `f`. -/
def renumber (f : Int → Int) : Except Diagnostic Program → Except Diagnostic Program
  | .ok p => .ok { p with placed := p.placed.map fun w => { w with line := f w.line } }
  | .error d => .error { d with line := f d.line }

/-- Results that are alike, with numbers related by a function, differ by that function. -/
theorem EndsAlike.eq_renumber {f : Int → Int} {x y : Except Diagnostic Program}
    (h : EndsAlike (Diagnostic.Like fun a b => b = f a) (Program.Like fun a b => b = f a) x y) :
    y = renumber f x := by
  cases h with
  | @error d e h =>
    obtain ⟨line, fault⟩ := e
    obtain ⟨rfl, rfl⟩ := h
    rfl
  | @ok p q h =>
    obtain ⟨placed, symbols⟩ := q
    obtain ⟨hplaced, rfl⟩ := h
    have hplaced : List.Forall₂ (· = ·)
        (p.placed.map fun w => { w with line := f w.line }) placed := by
      refine List.forall₂_map_left_iff.mpr (hplaced.imp ?_)
      rintro v ⟨line, word⟩ ⟨rfl, rfl⟩
      rfl
    rw [List.forall₂_eq_eq_eq] at hplaced
    rw [← hplaced]
    rfl

theorem renumber_id (x : Except Diagnostic Program) : renumber id x = x := by
  cases x with
  | error d => rfl
  | ok p =>
    show Except.ok { p with placed := p.placed.map id } = _
    rw [List.map_id]

section

variable {N : Int → Int → Prop}

/-- Lines with the same tokens state the same. -/
theorem Line.Like.statement {a b : Line} (h : Line.Like N a b) : a.statement = b.statement := by
  unfold Line.statement
  rw [h.tokens]

theorem Program.Like.words {p q : Program} (h : Program.Like N p q) : q.words = p.words := by
  have hwords : List.Forall₂ (· = ·) p.words q.words :=
    List.rel_map (fun _ _ h => h.word) h.placed
  rw [List.forall₂_eq_eq_eq] at hwords
  exact hwords.symm

theorem Program.Like.lines {p q : Program} (h : Program.Like N p q) :
    List.Forall₂ N p.lines q.lines :=
  List.rel_map (fun _ _ h => h.line) h.placed

/-! ## Expansion -/

/-- Both macros have the same name, and lines with the same tokens whatever the argument is. -/
structure Macro.Like (m m' : Macro) : Prop where
  name : m.name = m'.name
  body : List.Forall₂ (fun s t => ∀ argument,
    Line.tokens (s.substitute Macro.placeholder argument) =
      Line.tokens (t.substitute Macro.placeholder argument)) m.body m'.body

theorem forall₂_macro_like_refl (macros : List Macro) : List.Forall₂ Macro.Like macros macros :=
  List.forall₂_same.mpr fun _ _ => ⟨rfl, List.forall₂_same.mpr fun _ _ _ => rfl⟩

section

variable {m m' : Macro} {ranked ranked' macros macros' : List Macro}

/-- Bodies that are alike stay so with the same argument, and get related numbers. -/
theorem Macro.Like.instantiate (h : m.Like m') (argument : Text) {x y : Int} (hxy : N x y) :
    List.Forall₂ (Line.Like N) (m.instantiate argument x) (m'.instantiate argument y) := by
  unfold Macro.instantiate
  rw [List.forall₂_map_left_iff, List.forall₂_map_right_iff]
  exact h.body.imp fun _ _ hbody => ⟨hxy, hbody argument⟩

/-- Lists that are related one by one are sorted alike by an order that the relation respects. -/
theorem forall₂_mergeSort {α β : Type} {R : α → β → Prop} {le : α → α → Bool} {le' : β → β → Bool}
    (hle : ∀ a a' b b', R a b → R a' b' → le a a' = le' b b') {xs : List α} {ys : List β}
    (h : List.Forall₂ R xs ys) : List.Forall₂ R (xs.mergeSort le) (ys.mergeSort le') := by
  obtain ⟨hlength, hzip⟩ := List.forall₂_iff_zip.mp h
  -- both are what is left of the sorted pairs
  have hleft : ((xs.zip ys).mergeSort fun p q => le p.1 q.1).map Prod.fst = xs.mergeSort le := by
    rw [List.map_mergeSort (s := le) fun _ _ _ _ => rfl,
      List.map_fst_zip (Nat.le_of_eq hlength)]
  have hright : ((xs.zip ys).mergeSort fun p q => le p.1 q.1).map Prod.snd = ys.mergeSort le' := by
    rw [List.map_mergeSort (s := le') fun p hp q hq => hle _ _ _ _ (hzip hp) (hzip hq),
      List.map_snd_zip (Nat.le_of_eq hlength.symm)]
  rw [← hleft, ← hright, List.forall₂_map_left_iff, List.forall₂_map_right_iff, List.forall₂_same]
  intro p hp
  exact hzip (List.mem_mergeSort.mp hp)

/-- Sorting goes by names, which are the same. -/
theorem longestFirst_like (h : List.Forall₂ Macro.Like macros macros') :
    List.Forall₂ Macro.Like (Macro.longestFirst macros) (Macro.longestFirst macros') := by
  refine forall₂_mergeSort ?_ h
  intro a a' b b' hab hab'
  rw [hab.name, hab'.name]

/-- Lists of macros that are alike have macros that are alike for the same code. -/
theorem used?_like (h : List.Forall₂ Macro.Like ranked ranked') (code : Text) :
    Option.Rel Macro.Like (Macro.used? ranked code) (Macro.used? ranked' code) := by
  unfold Macro.used?
  by_cases hempty : code.isEmpty = true
  · rw [if_pos hempty, if_pos hempty]
    exact .none
  · rw [if_neg hempty, if_neg hempty]
    induction h with
    | nil => exact .none
    | @cons m m' _ _ hm _ ih =>
      rw [List.find?_cons, List.find?_cons, ← hm.name]
      cases m.name.occursIn code with
      | true => exact .some hm
      | false => exact ih

/-- A line uses a macro if its tokens do, and the macro's lines get its number. -/
theorem Line.Like.expand {a b : Line} (h : Line.Like N a b)
    (hranked : List.Forall₂ Macro.Like ranked ranked') :
    EndsAlike (Diagnostic.Like N) (List.Forall₂ (Line.Like N))
      (a.expand ranked) (b.expand ranked') := by
  unfold Line.expand Line.invocation?
  dsimp only
  rw [← h.tokens]
  have hused := used?_like hranked (Text.joinWith Text.space (Line.tokens a.text))
  generalize Macro.used? ranked _ = use, Macro.used? ranked' _ = use' at hused ⊢
  cases hused with
  | none => exact .ok (.cons h .nil)
  | some hm =>
    cases (Line.tokens a.text)[1]? with
    | none => exact .error ⟨h.num, congrArg Fault.macroArgumentMissing hm.name⟩
    | some argument => exact .ok (hm.instantiate argument h.num)

end

variable {a b : List Line}

/-- Code that reads alike is expanded alike. -/
theorem expand_like {macros macros' : List Macro} (hmacros : List.Forall₂ Macro.Like macros macros')
    (h : List.Forall₂ (Line.Like N) a b) :
    EndsAlike (Diagnostic.Like N) (List.Forall₂ (Line.Like N))
      (expand macros a) (expand macros' b) := by
  have hblocks := EndsAlike.mapM (fun _ _ hline => hline.expand (longestFirst_like hmacros)) h
  exact hblocks.bind fun xs ys hxy => .ok (List.rel_flatten hxy)

/-! ## The first pass -/

/-- Both surveys have found the same labels, after the same number of instructions. -/
structure Survey.Like (s t : Survey) : Prop where
  symbols : s.symbols = t.symbols
  count : s.count = t.count

/-- One more line that reads alike keeps what both surveys have found the same. -/
theorem Survey.Like.visit {s t : Survey} (hst : s.Like t) {a b : Line} (h : Line.Like N a b) :
    EndsAlike (Diagnostic.Like N) Survey.Like (s.visit a) (t.visit b) := by
  unfold Survey.visit
  rw [← h.statement, ← hst.symbols, ← hst.count]
  cases a.statement with
  | blank => exact .ok hst
  | instruction head operands => exact .ok ⟨rfl, rfl⟩
  | label name =>
    by_cases hempty : name.isEmpty = true
    · simp only [if_pos hempty]
      exact .error ⟨h.num, rfl⟩
    · by_cases hdup : s.symbols.contains name = true
      · simp only [if_neg hempty, if_pos hdup]
        exact .error ⟨h.num, rfl⟩
      · simp only [if_neg hempty, if_neg hdup]
        exact .ok ⟨rfl, rfl⟩

/-- The first pass finds the same in code that reads alike. -/
theorem survey_like (h : List.Forall₂ (Line.Like N) a b) :
    EndsAlike (Diagnostic.Like N) Survey.Like (survey a) (survey b) := by
  refine EndsAlike.foldlM (fun s t k l hst hkl => hst.visit hkl) h ?_
  exact ⟨rfl, rfl⟩

/-! ## The second pass -/

theorem instructionLines_like (h : List.Forall₂ (Line.Like N) a b) :
    List.Forall₂ (InstructionLine.Like N) (instructionLines a) (instructionLines b) := by
  refine List.rel_filterMap ?_ h
  intro k l hkl
  unfold InstructionLine.ofLine?
  rw [← hkl.statement]
  cases k.statement with
  | blank | label name => exact .none
  | instruction head operands => exact .some ⟨hkl.num, rfl, rfl⟩

theorem forall₂_zipIdx {α β : Type} {R : α → β → Prop} {xs : List α} {ys : List β}
    (h : List.Forall₂ R xs ys) :
    ∀ first : Nat, List.Forall₂ (fun x y => R x.1 y.1 ∧ x.2 = y.2)
      (xs.zipIdx first) (ys.zipIdx first) := by
  induction h with
  | nil => exact fun _ => .nil
  | cons hxy _ ih =>
    intro first
    rw [List.zipIdx_cons, List.zipIdx_cons]
    exact .cons ⟨hxy, rfl⟩ (ih (first + 1))

/-- Instruction lines with the same tokens have the same word or the same fault. -/
theorem InstructionLine.Like.place {k l : InstructionLine} (h : InstructionLine.Like N k l)
    (symbols : SymbolTable) (pc : Nat) :
    EndsAlike (Diagnostic.Like N) (PlacedWord.Like N)
      (k.place symbols pc) (l.place symbols pc) := by
  unfold InstructionLine.place
  rw [k.encode_eq, l.encode_eq, ← h.head, ← h.operands]
  cases Instruction.ofTokens symbols pc k.head k.operands with
  | error fault => exact .error ⟨h.num, rfl⟩
  | ok i => exact .ok ⟨h.num, rfl⟩

/-- The second pass makes the same words from code that reads alike. -/
theorem encodeAll_like (symbols : SymbolTable) (h : List.Forall₂ (Line.Like N) a b) :
    EndsAlike (Diagnostic.Like N) (List.Forall₂ (PlacedWord.Like N))
      (encodeAll symbols a) (encodeAll symbols b) := by
  refine EndsAlike.mapM ?_ (forall₂_zipIdx (instructionLines_like h) 1)
  rintro ⟨k, pc⟩ ⟨l, pc'⟩ ⟨hkl, rfl⟩
  exact hkl.place symbols pc

/-- Code whose lines read alike is assembled alike. -/
theorem assembleCode_like (h : List.Forall₂ (Line.Like N) a b) :
    EndsAlike (Diagnostic.Like N) (Program.Like N) (assembleCode a) (assembleCode b) := by
  refine (survey_like h).bind fun s t hst => ?_
  rw [← hst.symbols]
  exact (encodeAll_like s.symbols h).bind fun xs ys hxy => .ok ⟨hxy, rfl⟩

end

/-! ## Numbered texts -/

/-- Texts with the same tokens, in the same order, are lines that read alike wherever they stand. -/
theorem numbered_like {a b : List Text}
    (h : List.Forall₂ (fun s t => Line.tokens s = Line.tokens t) a b) (first shift : Nat) :
    List.Forall₂ (Line.Like fun x y => y = x + shift)
      (numbered first a) (numbered (first + shift) b) := by
  induction h generalizing first with
  | nil => exact .nil
  | @cons s t a b hst _ ih =>
    have hrest := ih (first + 1)
    rw [Nat.add_right_comm] at hrest
    exact .cons ⟨Int.natCast_add first shift, hst⟩ hrest

end Glyph8
