import Glyph8.Proofs.Assembly.Renumbering

/-!
# Styles of line endings

A source text may come with newlines alone or with a carriage return before each newline. Both are
assembled to the same words, lines and errors (`assemble_withReturns`).

That is not quite immediate. A carriage return before a newline belongs to the line ending, but one
more before it stays at the end of the line. So if every newline of a text gets a carriage return, a
line that ended in one already keeps it, where it had lost it before. And the last line, which has
no newline after it, is left alone. The lines of both texts are thus the same only up to a carriage
return at the end (`lines_withReturns`).

Every reader of lines looks past it. Tokens and words do, since it is a blank; the search for
markers does, since it is no marker (`SameUpToReturn.congr` is the common argument). A body line
keeps it when an argument is put in (`SameUpToReturn.substitute`). Reading the sections goes the
same way on both, line by line (`scan_sameUpToReturn`), and from there on lines with the same tokens
are assembled alike.
-/

namespace Glyph8

namespace Text

/-- The text with a carriage return put before every newline. -/
def withReturns (t : Text) : Text := t.substitute newline [carriageReturn, newline]

/-- `t` is `s`, or `s` with a carriage return at its end. -/
def SameUpToReturn (s t : Text) : Prop := t = s ∨ t = s ++ [carriageReturn]

/-! ## One line -/

namespace SameUpToReturn

variable {s t : Text}

/-- Taking a carriage return away, or not, leaves a line the same in this sense. -/
theorem of_stripReturn (line : Text) : SameUpToReturn (stripReturn line) line :=
  (stripReturn_cases line).imp_left Eq.symm

/-- What does not see the carriage return at the end of a line does not tell the two apart. -/
theorem congr {α : Type} {f : Text → α} (hf : ∀ line, f (stripReturn line) = f line)
    (h : SameUpToReturn s t) : f s = f t := by
  rcases h with rfl | rfl
  · rfl
  · rw [← hf (s ++ [carriageReturn]), stripReturn_concat]

theorem words (h : SameUpToReturn s t) : s.words = t.words := h.congr words_stripReturn

/-- The carriage return belongs to no token. -/
theorem tokens (h : SameUpToReturn s t) : Line.tokens s = Line.tokens t :=
  h.congr Line.tokens_stripReturn

/-- The carriage return is no other character. -/
theorem hasChar (h : SameUpToReturn s t) {c : Char} (hc : c ≠ '\r') :
    s.hasChar c = t.hasChar c := h.congr (hasChar_stripReturn hc)

/-- What is put into a line stands before the carriage return at its end. -/
theorem substitute (h : SameUpToReturn s t) {old : UInt8} (hold : carriageReturn ≠ old)
    (new : Text) :
    SameUpToReturn (s.substitute old new) (t.substitute old new) := by
  rcases h with rfl | rfl
  · exact Or.inl rfl
  · right
    unfold Text.substitute
    rw [List.flatMap_append, List.flatMap_singleton, if_neg hold]

end SameUpToReturn

/-! ## Lines -/

theorem substitute_of_not_mem {t : Text} {old : UInt8} (h : old ∉ t) (new : Text) :
    t.substitute old new = t := by
  unfold substitute
  have hsame : ∀ b ∈ t, (if b = old then new else [b]) = [b] := by
    intro b hb
    refine if_neg ?_
    rintro rfl
    exact h hb
  rw [List.flatMap_congr hsame]
  exact List.flatMap_singleton' t

/-- The first newline gets its carriage return. -/
theorem withReturns_append_newline {l : Text} (h : newline ∉ l) (u : Text) :
    withReturns (l ++ newline :: u) = (l ++ [carriageReturn]) ++ newline :: u.withReturns := by
  have hl := substitute_of_not_mem h [carriageReturn, newline]
  unfold withReturns
  rw [List.append_assoc]
  show substitute (l ++ ([newline] ++ u)) newline _ = _
  unfold substitute at hl ⊢
  rw [List.flatMap_append, hl, List.flatMap_append, List.flatMap_singleton, if_pos rfl]
  rfl

/-- With a carriage return before every newline, a line keeps the one that it ended in before. -/
theorem lines_joinWith_withReturns : ∀ {ls : List Text}, ls ≠ [] → (∀ l ∈ ls, newline ∉ l) →
    List.Forall₂ SameUpToReturn (joinWith newline ls).lines
      (joinWith newline ls).withReturns.lines := by
  intro ls
  induction ls with
  | nil => exact fun h => absurd rfl h
  | cons l ls ih =>
    intro _ h
    have hl : newline ∉ l := h l List.mem_cons_self
    cases ls with
    | nil =>
      unfold joinWith withReturns
      rw [List.intercalate_singleton, substitute_of_not_mem hl, lines_of_not_mem hl]
      exact .cons (Or.inl rfl) .nil
    | cons next ls =>
      have hreturn : newline ∉ l ++ [carriageReturn] := by
        rw [List.mem_append, not_or]
        exact ⟨hl, by decide⟩
      have hjoin : joinWith newline (l :: next :: ls) =
          l ++ newline :: joinWith newline (next :: ls) := by
        unfold joinWith
        rw [List.intercalate_cons_cons, List.append_assoc]
        rfl
      -- the line loses the carriage return that it got, and keeps one that it had before
      rw [hjoin, withReturns_append_newline hl, lines_append_newline hl,
        lines_append_newline hreturn, stripReturn_concat]
      refine .cons (.of_stripReturn l) (ih (List.cons_ne_nil _ _) ?_)
      exact fun l' hl' => h l' (List.mem_cons_of_mem l hl')

/-- A text and the text with carriage returns have the same lines in this sense. -/
theorem lines_withReturns (src : Text) :
    List.Forall₂ SameUpToReturn src.lines src.withReturns.lines := by
  have hsrc : joinWith newline (src.splitOn newline) = src := List.intercalate_splitOn newline
  have h := lines_joinWith_withReturns (List.splitOn_ne_nil newline src)
    fun _ => newline_not_mem_of_mem_splitOn
  rw [hsrc] at h
  exact h

end Text

/-! ## Sections -/

/-- Both macros are the same, except for carriage returns at the ends of body lines. -/
structure Macro.SameUpToReturn (m m' : Macro) : Prop where
  name : m.name = m'.name
  line : m.line = m'.line
  body : List.Forall₂ Text.SameUpToReturn m.body m'.body

theorem Macro.SameUpToReturn.like {m m' : Macro} (h : m.SameUpToReturn m') : m.Like m' :=
  ⟨h.name, h.body.imp fun _ _ hbody argument => (hbody.substitute (by decide) argument).tokens⟩

/-- Both have the same sections, except for carriage returns at the ends of lines. -/
structure Sections.SameUpToReturn (p q : Sections) : Prop where
  macros : List.Forall₂ Macro.SameUpToReturn p.macros q.macros
  code : List.Forall₂ (Line.Like fun x y => y = x) p.code q.code

namespace Sections

theorem any_name_eq {done done' : List Macro} (h : List.Forall₂ Macro.SameUpToReturn done done')
    (name : Text) : done.any (·.name == name) = done'.any (·.name == name) := by
  induction h with
  | nil => rfl
  | cons hm _ ih => rw [List.any_cons, List.any_cons, hm.name, ih]

/-- A macro that is named at the end of a line has the same name. -/
theorem macroName?_eq {s t : Text} (h : s.SameUpToReturn t) : macroName? s = macroName? t := by
  unfold macroName?
  rw [h.words]

/-- Reading lines that are the same up to carriage returns goes the same way, line by line. -/
theorem scan_sameUpToReturn {lines lines' : List Text}
    (h : List.Forall₂ Text.SameUpToReturn lines lines') :
    ∀ (num : Nat) {done done' : List Macro} {current current' : Option Macro},
      List.Forall₂ Macro.SameUpToReturn done done' →
      Option.Rel Macro.SameUpToReturn current current' →
        EndsAlike (· = ·) SameUpToReturn (scan num done current lines)
          (scan num done' current' lines') := by
  induction h with
  | nil =>
    intro num done done' current current' _ hcurrent
    cases hcurrent with
    | none => exact .error rfl
    | @some m m' hm =>
      refine .error ?_
      rw [hm.name, hm.line]
  | @cons text text' rest rest' htext hrest ih =>
    intro num done done' current current' hdone hcurrent
    -- no marker is a carriage return, so both lines are taken alike
    have hclose := htext.hasChar (c := Marker.closeMacro) (by decide)
    have hcode := htext.hasChar (c := Marker.code) (by decide)
    have hopen := htext.hasChar (c := Marker.openMacro) (by decide)
    cases hcurrent with
    | @some m m' hm =>
      rw [scan, scan, ← hclose, ← hcode]
      split
      · -- the macro is done
        exact ih (num + 1) (List.rel_append hdone (.cons hm .nil)) .none
      · split
        · refine .error ?_
          rw [hm.name, hm.line]
        · -- the line belongs to the body
          refine ih (num + 1) hdone (.some ⟨hm.name, hm.line, ?_⟩)
          exact List.rel_append hm.body (.cons htext .nil)
    | none =>
      rw [scan, scan, ← hopen, ← hcode, ← macroName?_eq htext]
      split
      · cases macroName? text with
        | none => exact .error rfl
        | some name =>
          show EndsAlike _ _ (if done.any (·.name == name) then _ else _)
            (if done'.any (·.name == name) then _ else _)
          rw [← any_name_eq hdone name]
          split
          · exact .error rfl
          · exact ih (num + 1) hdone (.some ⟨rfl, rfl, .nil⟩)
      · split
        · refine .ok ⟨hdone, ?_⟩
          -- what follows the marker is code, of which only the tokens count
          have hlike := numbered_like (hrest.imp fun _ _ hline => hline.tokens) (num + 1) 0
          exact hlike.imp fun _ _ h => ⟨by rw [h.num, Int.natCast_zero, Int.add_zero], h.tokens⟩
        · exact ih (num + 1) hdone .none

end Sections

/-- A source text is assembled to the same, or fails in the same way, if every newline of it gets a
carriage return. -/
theorem assemble_withReturns (src : Text) : assemble src.withReturns = assemble src := by
  have hsections : EndsAlike (· = ·) Sections.SameUpToReturn (sections src)
      (sections src.withReturns) :=
    Sections.scan_sameUpToReturn (Text.lines_withReturns src) 1 .nil .none
  have hlike : EndsAlike (Diagnostic.Like fun x y => y = id x) (Program.Like fun x y => y = id x)
      (assemble src) (assemble src.withReturns) := by
    unfold assemble expandedCode
    generalize sections src = x, sections src.withReturns = y at hsections
    cases hsections with
    | error h =>
      subst h
      exact .error ⟨rfl, rfl⟩
    | @ok p q h =>
      rw [ok_bind, ok_bind]
      have hmacros := h.macros.imp fun _ _ hm => hm.like
      exact (expand_like hmacros h.code).bind fun _ _ hcode => assembleCode_like hcode
  rw [hlike.eq_renumber, renumber_id]

end Glyph8
