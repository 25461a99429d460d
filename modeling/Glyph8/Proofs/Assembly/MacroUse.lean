import Mathlib.Data.List.Infix
import Glyph8.Proofs.Assembly.Expanding
import Glyph8.Proofs.Text.Tokens

/-!
# Which macro a line uses

Macros are looked up in a list that is sorted by the length of their names, and the first whose name
occurs in the code of a line is used. Here the rule is said without the search. A line invokes a
macro if the name occurs in its tokens, joined by single spaces (`Line.Invokes`). Of the macros that
it invokes it selects one with a name of greatest length, and of names of that length the one
defined first (`Line.Selects`).

The two agree because sorting is stable: it keeps the order among names of one length
(`Macro.ofLength_longestFirst`). Behind the first macro that is invoked, names only get shorter, so
the search finds the macro that is selected (`Line.used?_eq_some_iff`). At most one macro is
selected (`Selects.unique`), and one is selected if any is invoked (`not_invokes_or_selects`).

`Line.ExpandsTo` says what comes in the place of a line. A line that invokes no macro stays.
Otherwise it is replaced by the body of the selected macro: the pieces of each body line between the
placeholders, joined by the argument, which is the second token of the line. There is no argument if
there is no second token, and that is the only failure (`expand_eq_error_iff`).

The main result, `expansion_specified`, says what code expands to and on which line expanding fails.
From it follows that code can be expanded in parts, that only the order among macros with names of
one length matters, and that code in which no macro is invoked stays as it is.
-/

namespace Glyph8

/-! ## Runs of bytes -/

namespace Text

/-- Searching for a text finds it if it is a run of the bytes. -/
theorem occursIn_iff {pattern t : Text} : pattern.occursIn t = true ↔ pattern <:+: t := by
  induction t with
  | nil => rw [occursIn, List.isEmpty_iff, List.infix_nil]
  | cons b rest ih =>
    rw [occursIn, Bool.or_eq_true, List.isPrefixOf_iff_prefix, ih, List.infix_cons_iff]

/-- Replacing a byte puts the new text between the pieces that the byte separates. -/
theorem substitute_eq_intercalate (t new : Text) (old : UInt8) :
    t.substitute old new = new.intercalate (t.splitOn old) := by
  induction t with
  | nil => simp [substitute]
  | cons b rest ih =>
    rw [substitute, List.flatMap_cons, ← substitute, ih, List.splitOn_cons_eq_if_modifyHead]
    obtain ⟨piece, pieces, hpieces⟩ := List.exists_cons_of_ne_nil (List.splitOn_ne_nil old rest)
    rw [hpieces]
    by_cases hb : b = old
    · simp [hb, List.intercalate_cons_cons]
    · cases pieces with
      | nil => simp [hb]
      | cons next pieces => simp [hb, List.intercalate_cons_cons]

end Text

/-! ## Macros with names of one length -/

namespace Macro

/-- The macros with names of `n` bytes, in the given order. -/
def ofLength (n : Nat) (macros : List Macro) : List Macro :=
  macros.filter fun m => m.name.length = n

variable {n : Nat} {macros reordered : List Macro} {m : Macro}

theorem mem_ofLength : m ∈ ofLength n macros ↔ m ∈ macros ∧ m.name.length = n := by
  rw [ofLength, List.mem_filter, decide_eq_true_iff]

/-- Lists that agree on the names of each length have the same macros. -/
theorem mem_of_mem_reordered (horder : ∀ n, ofLength n macros = ofLength n reordered)
    (hm : m ∈ reordered) : m ∈ macros := by
  have hmem : m ∈ ofLength m.name.length reordered := mem_ofLength.mpr ⟨hm, rfl⟩
  rw [← horder] at hmem
  exact (mem_ofLength.mp hmem).1

/-- Where a macro stands among those with names of its length. -/
theorem ofLength_append_cons (before after : List Macro) (m : Macro) :
    ofLength m.name.length (before ++ m :: after) =
      ofLength m.name.length before ++ m :: ofLength m.name.length after := by
  unfold ofLength
  rw [List.filter_append, List.filter_cons, if_pos (decide_eq_true rfl)]

theorem longer_trans (a b c : Macro) (hab : decide (b.name.length ≤ a.name.length) = true)
    (hbc : decide (c.name.length ≤ b.name.length) = true) :
    decide (c.name.length ≤ a.name.length) = true :=
  decide_eq_true ((of_decide_eq_true hbc).trans (of_decide_eq_true hab))

theorem longer_total (a b : Macro) :
    (decide (b.name.length ≤ a.name.length) || decide (a.name.length ≤ b.name.length)) = true := by
  rw [Bool.or_eq_true, decide_eq_true_iff, decide_eq_true_iff]
  exact Nat.le_total _ _

/-- In the sorted list no name is longer than one before it. -/
theorem pairwise_longestFirst (macros : List Macro) :
    (longestFirst macros).Pairwise fun a b => b.name.length ≤ a.name.length :=
  (List.pairwise_mergeSort longer_trans longer_total macros).imp of_decide_eq_true

/-- Sorting keeps the order among names of one length. -/
theorem ofLength_longestFirst (n : Nat) (macros : List Macro) :
    ofLength n (longestFirst macros) = ofLength n macros := by
  have htied : (ofLength n macros).Pairwise fun a b => b.name.length ≤ a.name.length :=
    List.pairwise_of_forall_mem_list fun a ha b hb =>
      Nat.le_of_eq ((mem_ofLength.mp hb).2.trans (mem_ofLength.mp ha).2.symm)
  have hsub : (ofLength n macros).Sublist (longestFirst macros) :=
    List.sublist_mergeSort longer_trans longer_total (htied.imp decide_eq_true) List.filter_sublist
  have hkept : (ofLength n macros).Sublist (ofLength n (longestFirst macros)) := by
    have h := hsub.filter fun m => m.name.length = n
    rwa [List.filter_eq_self.mpr fun m hm => decide_eq_true (mem_ofLength.mp hm).2] at h
  -- sorting changes no number of macros, so nothing is missing
  exact (hkept.eq_of_length ((List.mergeSort_perm macros _).filter _).symm.length_eq).symm

end Macro

/-! ## Invoking and selecting -/

namespace Line

/-- The name of the macro occurs in the tokens of the line, joined by single spaces. -/
def Invokes (line : Line) (m : Macro) : Prop :=
  Line.tokens line.text ≠ [] ∧ m.name <:+: spaced (Line.tokens line.text)

instance (line : Line) (m : Macro) : Decidable (line.Invokes m) :=
  inferInstanceAs (Decidable (_ ∧ _))

/-- The macro a line uses: no invoked macro has a longer name, and no macro with a name of the same
length that is defined before it is invoked. -/
structure Selects (macros : List Macro) (line : Line) (m : Macro) : Prop where
  invokes : line.Invokes m
  longest : ∀ other ∈ macros, line.Invokes other → other.name.length ≤ m.name.length
  first : ∃ before after, Macro.ofLength m.name.length macros = before ++ m :: after ∧
    ∀ other ∈ before, ¬line.Invokes other

/-- What comes in the place of a line. The pieces of a body's line between the placeholders are
joined by the argument, the second token. -/
inductive ExpandsTo (macros : List Macro) (line : Line) : List Line → Prop
  | kept (h : ∀ m ∈ macros, ¬line.Invokes m) : ExpandsTo macros line [line]
  | replaced {m : Macro} {argument : Text} (hm : line.Selects macros m)
      (hargument : (Line.tokens line.text)[1]? = some argument) :
      ExpandsTo macros line
        (m.body.map fun text => ⟨line.num, argument.intercalate (text.splitOn Macro.placeholder)⟩)

variable {macros reordered : List Macro} {line : Line} {m k : Macro}

theorem Selects.mem (h : line.Selects macros m) : m ∈ macros := by
  obtain ⟨before, after, hsplit, _⟩ := h.first
  refine (Macro.mem_ofLength (n := m.name.length)).mp ?_ |>.1
  rw [hsplit]
  exact List.mem_append_right _ List.mem_cons_self

/-- Only the order among names of one length matters. -/
theorem Selects.reorder (horder : ∀ n, Macro.ofLength n macros = Macro.ofLength n reordered)
    (h : line.Selects macros m) : line.Selects reordered m := by
  refine ⟨h.invokes, ?_, horder _ ▸ h.first⟩
  intro other hother
  exact h.longest other (Macro.mem_of_mem_reordered horder hother)

/-- Among names of its length, the selected macro is the first that is invoked. -/
theorem Selects.find? (h : line.Selects macros m) :
    (Macro.ofLength m.name.length macros).find? (fun m => line.Invokes m) = some m := by
  obtain ⟨before, after, hsplit, hbefore⟩ := h.first
  rw [List.find?_eq_some_iff_append]
  refine ⟨decide_eq_true h.invokes, before, after, hsplit, ?_⟩
  intro other hother
  rw [decide_eq_false (hbefore other hother)]
  rfl

/-- A line selects one macro at most. -/
theorem Selects.unique (hm : line.Selects macros m) (hk : line.Selects macros k) : m = k := by
  have hlength : m.name.length = k.name.length :=
    Nat.le_antisymm (hk.longest m hm.mem hm.invokes) (hm.longest k hk.mem hk.invokes)
  have hfind := hm.find?
  rw [hlength] at hfind
  exact Option.some.inj (hfind.symm.trans hk.find?)

/-! ## The search -/

theorem tokens_eq_nil_of_spaced (h : spaced (Line.tokens line.text) = []) :
    Line.tokens line.text = [] := by
  rw [← Line.tokens_spaced_tokens fun _ => Line.canBeToken_of_mem_tokens, h]
  rfl

/-- The search goes by what a line invokes. -/
theorem used?_eq_find? (ranked : List Macro) (line : Line) :
    Macro.used? ranked (spaced (Line.tokens line.text)) =
      ranked.find? fun m => line.Invokes m := by
  unfold Macro.used?
  by_cases hblank : Line.tokens line.text = []
  · rw [if_pos (by rw [hblank]; rfl), eq_comm, List.find?_eq_none]
    intro m _ h
    exact (of_decide_eq_true h).1 hblank
  · have hcode : ¬(spaced (Line.tokens line.text)).isEmpty = true := fun h =>
      hblank (tokens_eq_nil_of_spaced (List.isEmpty_iff.mp h))
    rw [if_neg hcode]
    congr 1
    funext m
    rw [Bool.eq_iff_iff, Text.occursIn_iff, decide_eq_true_iff]
    exact ⟨fun h => ⟨hblank, h⟩, And.right⟩

/-- Names only get shorter behind the first macro that is invoked, so it is selected. -/
theorem selects_of_find?
    (h : (Macro.longestFirst macros).find? (fun m => line.Invokes m) = some m) :
    line.Selects macros m := by
  obtain ⟨hm, before, after, hsplit, hbefore⟩ := List.find?_eq_some_iff_append.mp h
  have hearlier : ∀ other ∈ before, ¬line.Invokes other := by
    intro other hother
    simpa using hbefore other hother
  refine Selects.reorder (fun n => Macro.ofLength_longestFirst n macros) ?_
  refine ⟨of_decide_eq_true hm, ?_, ?_⟩
  · intro other hother hinvokes
    have hsorted := Macro.pairwise_longestFirst macros
    rw [hsplit] at hother hsorted
    rcases List.mem_append.mp hother with hother | hother
    · exact absurd hinvokes (hearlier other hother)
    · rcases List.mem_cons.mp hother with rfl | hother
      · exact Nat.le_refl _
      · exact List.rel_of_pairwise_cons (List.pairwise_append.mp hsorted).2.1 hother
  · rw [hsplit, Macro.ofLength_append_cons]
    exact ⟨_, _, rfl, fun other hother => hearlier other (Macro.mem_ofLength.mp hother).1⟩

theorem used?_eq_none_iff :
    Macro.used? (Macro.longestFirst macros) (spaced (Line.tokens line.text)) = none ↔
      ∀ m ∈ macros, ¬line.Invokes m := by
  rw [used?_eq_find?, List.find?_eq_none]
  simp only [Macro.longestFirst, List.mem_mergeSort, decide_eq_true_iff]

/-- What the search finds is what the line selects. -/
theorem used?_eq_some_iff :
    Macro.used? (Macro.longestFirst macros) (spaced (Line.tokens line.text)) = some m ↔
      line.Selects macros m := by
  constructor
  · rw [used?_eq_find?]
    exact selects_of_find?
  · intro h
    cases hused : Macro.used? (Macro.longestFirst macros) (spaced (Line.tokens line.text)) with
    | none => exact absurd h.invokes (used?_eq_none_iff.mp hused m h.mem)
    | some k =>
      rw [used?_eq_find?] at hused
      rw [(selects_of_find? hused).unique h]

/-! ## One line -/

theorem expand_of_not_invokes (h : ∀ m ∈ macros, ¬line.Invokes m) :
    line.expand (Macro.longestFirst macros) = .ok [line] := by
  have hused := used?_eq_none_iff.mpr h
  unfold spaced at hused
  unfold Line.expand Line.invocation?
  simp only [hused, ok_bind]
  rfl

/-- A line that selects a macro is replaced by its body if there is an argument, and is an error
otherwise. -/
theorem expand_of_selects (h : line.Selects macros m) :
    line.expand (Macro.longestFirst macros) =
      match (Line.tokens line.text)[1]? with
      | none => .error ⟨line.num, .macroArgumentMissing m.name⟩
      | some argument => .ok (m.instantiate argument line.num) := by
  have hused := used?_eq_some_iff.mpr h
  unfold spaced at hused
  unfold Line.expand Line.invocation?
  simp only [hused]
  cases (Line.tokens line.text)[1]? with
  | none => rfl
  | some argument => rfl

/-- A line that invokes some macro selects one. -/
theorem not_invokes_or_selects (macros : List Macro) (line : Line) :
    (∀ m ∈ macros, ¬line.Invokes m) ∨ ∃ m, line.Selects macros m := by
  cases hused : Macro.used? (Macro.longestFirst macros) (spaced (Line.tokens line.text)) with
  | none => exact Or.inl (used?_eq_none_iff.mp hused)
  | some m => exact Or.inr ⟨m, used?_eq_some_iff.mp hused⟩

/-- What comes in the place of a line is what the rule says. -/
theorem expand_eq_ok_iff {block : List Line} :
    line.expand (Macro.longestFirst macros) = .ok block ↔ line.ExpandsTo macros block := by
  constructor
  · intro h
    -- the two cases of the rule are all there are, so the function can be compared in each
    rcases not_invokes_or_selects macros line with hkept | ⟨m, hm⟩
    · rw [expand_of_not_invokes hkept] at h
      exact Except.ok.inj h ▸ .kept hkept
    · rw [expand_of_selects hm] at h
      cases hargument : (Line.tokens line.text)[1]? with
      | none =>
        rw [hargument] at h
        cases h
      | some argument =>
        rw [hargument] at h
        rw [← Except.ok.inj h, Macro.instantiate]
        simp only [Text.substitute_eq_intercalate]
        exact .replaced hm hargument
  · intro h
    cases h with
    | kept h => exact expand_of_not_invokes h
    | replaced hm hargument =>
      rw [expand_of_selects hm, hargument]
      simp only [Macro.instantiate, Text.substitute_eq_intercalate]

theorem expand_eq_error_iff {d : Diagnostic} :
    line.expand (Macro.longestFirst macros) = .error d ↔
      ∃ m, line.Selects macros m ∧ (Line.tokens line.text).length < 2 ∧
        d = ⟨line.num, .macroArgumentMissing m.name⟩ := by
  constructor
  · intro h
    rcases not_invokes_or_selects macros line with hkept | ⟨m, hm⟩
    · rw [expand_of_not_invokes hkept] at h
      cases h
    · rw [expand_of_selects hm] at h
      cases hargument : (Line.tokens line.text)[1]? with
      | none =>
        rw [hargument] at h
        exact ⟨m, hm, Nat.lt_succ_of_le (List.getElem?_eq_none_iff.mp hargument),
          (Except.error.inj h).symm⟩
      | some argument =>
        rw [hargument] at h
        cases h
  · rintro ⟨m, hm, hshort, rfl⟩
    rw [expand_of_selects hm, List.getElem?_eq_none (Nat.le_of_lt_succ hshort)]

/-- A line can be expanded exactly if the macro that it selects has an argument. -/
theorem exists_expand_iff :
    (∃ block, line.expand (Macro.longestFirst macros) = .ok block) ↔
      ∀ m, line.Selects macros m → 2 ≤ (Line.tokens line.text).length := by
  constructor
  · rintro ⟨block, hblock⟩ m hm
    by_contra hshort
    have herror := expand_eq_error_iff.mpr ⟨m, hm, Nat.lt_of_not_le hshort, rfl⟩
    cases hblock.symm.trans herror
  · intro h
    cases hline : line.expand (Macro.longestFirst macros) with
    | ok block => exact ⟨block, rfl⟩
    | error d =>
      obtain ⟨m, hm, hshort, _⟩ := expand_eq_error_iff.mp hline
      exact absurd (h m hm) (Nat.not_le_of_lt hshort)

/-- Macros with names of different lengths can change places. -/
theorem expand_reorder (horder : ∀ n, Macro.ofLength n macros = Macro.ofLength n reordered)
    (line : Line) :
    line.expand (Macro.longestFirst macros) = line.expand (Macro.longestFirst reordered) := by
  rcases not_invokes_or_selects macros line with hkept | ⟨m, hm⟩
  · rw [expand_of_not_invokes hkept,
      expand_of_not_invokes fun m hm => hkept m (Macro.mem_of_mem_reordered horder hm)]
  · rw [expand_of_selects hm, expand_of_selects (hm.reorder horder)]

end Line

/-! ## Code -/

variable {macros : List Macro} {code : List Line}

theorem expand_eq_error_iff {d : Diagnostic} :
    expand macros code = .error d ↔
      ∃ before line after, code = before ++ line :: after ∧
        (∀ l ∈ before, ∃ block, l.expand (Macro.longestFirst macros) = .ok block) ∧
        line.expand (Macro.longestFirst macros) = .error d := by
  unfold expand
  rw [bind_eq_error_iff, mapM_eq_error_iff]
  constructor
  · rintro (h | ⟨_, _, h⟩)
    · exact h
    · cases h
  · exact Or.inl

theorem expand_of_not_invokes (h : ∀ l ∈ code, ∀ m ∈ macros, ¬l.Invokes m) :
    expand macros code = .ok code := by
  refine expand_eq_ok_iff.mpr ⟨code.map fun l => [l], ?_, ?_⟩
  · rw [← List.flatMap_def, List.flatMap_singleton']
  · rw [List.forall₂_map_right_iff, List.forall₂_same]
    exact fun l hl => Line.expand_of_not_invokes (h l hl)

/-- What code expands to is said line by line, and expanding fails on the first line that uses a
macro without an argument. So code can be expanded in parts, macros with names of different lengths
can change places, and expanded code that invokes no macro expands to itself. -/
theorem expansion_specified (macros : List Macro) (code : List Line) :
    (∀ out, expand macros code = .ok out ↔
      ∃ blocks, List.Forall₂ (Line.ExpandsTo macros) code blocks ∧ out = blocks.flatten) ∧
    (∀ d, expand macros code = .error d ↔
      ∃ before line after m, code = before ++ line :: after ∧
        (∀ l ∈ before, ∀ k, l.Selects macros k → 2 ≤ (Line.tokens l.text).length) ∧
        line.Selects macros m ∧ (Line.tokens line.text).length < 2 ∧
        d = ⟨line.num, .macroArgumentMissing m.name⟩) ∧
    (∀ more, expand macros (code ++ more) = do
      let x ← expand macros code
      let y ← expand macros more
      return x ++ y) ∧
    (∀ reordered, (∀ n, Macro.ofLength n macros = Macro.ofLength n reordered) →
      expand reordered code = expand macros code) ∧
    (∀ out, expand macros code = .ok out → (∀ l ∈ out, ∀ m ∈ macros, ¬l.Invokes m) →
      expand macros out = .ok out) := by
  refine ⟨?_, ?_, expand_code_append macros code, ?_, ?_⟩
  · intro out
    simp only [expand_eq_ok_iff, Line.expand_eq_ok_iff, and_comm]
  · intro d
    simp only [expand_eq_error_iff, Line.exists_expand_iff, Line.expand_eq_error_iff]
    constructor
    · rintro ⟨before, line, after, hcode, hbefore, m, h⟩
      exact ⟨before, line, after, m, hcode, hbefore, h⟩
    · rintro ⟨before, line, after, m, hcode, hbefore, h⟩
      exact ⟨before, line, after, hcode, hbefore, m, h⟩
  · intro reordered horder
    unfold expand
    rw [funext (Line.expand_reorder horder)]
  · intro out _ hout
    exact expand_of_not_invokes hout

/-- A macro whose name spans two tokens. -/
def spanning : Macro := ⟨utf8 "a b", 1, [utf8 "_._"]⟩

/-- A macro that every line with a token invokes. -/
def nameless : Macro := ⟨[], 2, [utf8 "go _"]⟩

/-- A macro whose name is as long as that of `spanning` and overlaps it. -/
def trailing : Macro := ⟨utf8 " b_", 3, [utf8 "x_"]⟩

/-- Three macros are invoked on line 7, and the placeholder in its argument stays. The blank line
invokes none, and line 9 has no argument for the macro without a name. -/
theorem expansion_specified_overlapping :
    expand [nameless, spanning, trailing] [⟨7, utf8 "a b_"⟩, ⟨8, []⟩] =
        .ok [⟨7, utf8 "b_.b_"⟩, ⟨8, []⟩] ∧
      expand [spanning, nameless, trailing] [⟨7, utf8 "a b_"⟩, ⟨8, []⟩, ⟨9, utf8 "x"⟩] =
        .error ⟨9, .macroArgumentMissing []⟩ ∧
      expand [spanning, trailing] [⟨7, utf8 "b_.b_"⟩, ⟨8, []⟩] =
        .ok [⟨7, utf8 "b_.b_"⟩, ⟨8, []⟩] := by
  have hblank : ∀ k, ¬Line.Invokes ⟨8, []⟩ k := fun _ h => h.1 rfl
  -- what lines 7 and 8 expand to, as soon as `spanning` is selected
  have hexpands : ∀ macros, Line.Selects macros ⟨7, utf8 "a b_"⟩ spanning →
      expand macros [⟨7, utf8 "a b_"⟩, ⟨8, []⟩] = .ok [⟨7, utf8 "b_.b_"⟩, ⟨8, []⟩] := by
    intro macros hselects
    have hblock := @Line.ExpandsTo.replaced _ _ _ (utf8 "b_") hselects (by decide +kernel)
    refine (expansion_specified macros _).1 _ |>.mpr
      ⟨_, .cons hblock (.cons (.kept fun m _ => hblank m) .nil), ?_⟩
    decide +kernel
  refine ⟨?_, ?_, ?_⟩
  · have hswap : ∀ n, Macro.ofLength n [spanning, nameless, trailing] =
        Macro.ofLength n [nameless, spanning, trailing] := by
      intro n
      by_cases hn : n = 0
      · subst hn
        decide +kernel
      · have hnameless : ¬nameless.name.length = n := fun h => hn h.symm
        simp [Macro.ofLength, List.filter_cons, hnameless]
    rw [(expansion_specified _ _).2.2.2.1 _ hswap]
    exact hexpands _
      ⟨by decide +kernel, by decide +kernel, [], [trailing], by decide +kernel, nofun⟩
  · refine (expansion_specified _ _).2.1 _ |>.mpr
      ⟨[⟨7, utf8 "a b_"⟩, ⟨8, []⟩], _, [], nameless, rfl, ?_, ?_, by decide +kernel, rfl⟩
    · intro l hl k hk
      rcases List.mem_pair.mp hl with rfl | rfl
      · decide +kernel
      · exact absurd hk.invokes (hblank k)
    · exact ⟨by decide +kernel, by decide +kernel, [], [], by decide +kernel, nofun⟩
  · refine (expansion_specified [spanning, trailing] [⟨7, utf8 "a b_"⟩, ⟨8, []⟩]).2.2.2.2 _ ?_ ?_
    · exact hexpands _
        ⟨by decide +kernel, by decide +kernel, [], [trailing], by decide +kernel, nofun⟩
    · decide +kernel

end Glyph8
