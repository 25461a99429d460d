import Glyph8.Assembly.Section
import Glyph8.Proofs.Attempt
import Glyph8.Proofs.Text.Endings

/-!
# Where the code begins

The lines of a source file are read one by one, with the macros that are done and the one that is
open carried along, until the code marker is found. `Reads` says what one line can do: it is read
over, with other macros done or open; it is an error; or it is the code marker. The constructors say
all that later proofs need, about line numbers and bodies as well, so that the function is opened
only once, in `reads`.

A source text has sections exactly if one of its lines is the code marker, and its code is what
follows, numbered from the next line on (`sections_eq_ok_iff`). Which line counts as the marker
depends on the lines before it, since a line inside an open macro does not. `BeginsFrom` says that
the lines before it are read over and leave no macro open; it is stated for every continuation of
the text, so that what follows the marker can be exchanged.

The other sections are about what the result holds. Body lines are lines of the text
(`mem_lines_of_mem_body`). The lines of code are numbered upwards (`pairwise_num_numbered`). And
reading fails for want of a code marker, on no line, or on a line of the text (`sections_error`);
for the latter, the line of the open macro has to be carried along.
-/

namespace Glyph8

namespace Sections

/-! ## One line of the macro section -/

/-- What reading the line `text` with number `num` does, given the macros that are done and the one
that is open. -/
inductive Reads (num : Nat) (done : List Macro) (current : Option Macro) (text : Text) : Prop
  /-- The rest is read with other macros done or open. A macro that is open then was open before,
  or this line opened it, and at most this line has been added to a body. -/
  | proceed (done' : List Macro) (current' : Option Macro)
      (next : ∀ rest, scan num done current (text :: rest) = scan (num + 1) done' current' rest)
      (line : ∀ m ∈ current', m.line = num ∨ ∃ m₀ ∈ current, m.line = m₀.line)
      (body : ∀ m ∈ done' ++ current'.toList, ∀ t ∈ m.body,
        t = text ∨ ∃ m₀ ∈ done ++ current.toList, t ∈ m₀.body)
  /-- Reading ends with an error, here or at the line of the open macro. -/
  | error (d : Diagnostic)
      (fails : ∀ rest, scan num done current (text :: rest) = .error d)
      (kind : d.kind ≠ .missingCodeSection)
      (line : d.line = num ∨ ∃ m ∈ current, d.line = m.line)
  | marker (closed : current = none) (not_open : text.hasChar Marker.openMacro = false)
      (code : text.hasChar Marker.code = true)

/-- Every line of the macro section is read in one of these ways. -/
theorem reads (num : Nat) (done : List Macro) (current : Option Macro) (text : Text) :
    Reads num done current text := by
  cases current with
  | some m =>
    -- inside a macro: the closing marker is looked for first, so a line with both markers closes it
    by_cases hclose : text.hasChar Marker.closeMacro = true
    · refine .proceed (done ++ [m]) none ?_ (by simp) ?_
      · intro rest
        rw [scan, if_pos hclose]
      · intro m' hm' t ht
        rw [Option.toList_none, List.append_nil] at hm'
        exact Or.inr ⟨m', hm', ht⟩
    · by_cases hcode : text.hasChar Marker.code = true
      · refine .error ⟨m.line, .macroOpenAtCode m.name⟩ ?_ nofun (Or.inr ⟨m, rfl, rfl⟩)
        intro rest
        rw [scan, if_neg hclose, if_pos hcode]
      · refine .proceed done (some { m with body := m.body ++ [text] }) ?_ ?_ ?_
        · intro rest
          rw [scan, if_neg hclose, if_neg hcode]
        · intro m' hm'
          rw [← Option.some.inj hm']
          exact Or.inr ⟨m, rfl, rfl⟩
        · intro m' hm' t ht
          rcases List.mem_append.mp hm' with hm' | hm'
          · exact Or.inr ⟨m', List.mem_append_left _ hm', ht⟩
          · rw [List.mem_singleton.mp hm'] at ht
            rcases List.mem_append.mp ht with ht | ht
            · exact Or.inr ⟨m, List.mem_append_right _ List.mem_cons_self, ht⟩
            · exact Or.inl (List.mem_singleton.mp ht)
  | none =>
    -- outside of a macro: an opening marker counts before the code marker
    by_cases hopen : text.hasChar Marker.openMacro = true
    · cases hname : macroName? text with
      | none =>
        refine .error ⟨num, .macroNameMissing⟩ ?_ nofun (Or.inl rfl)
        intro rest
        rw [scan, if_pos hopen]
        simp only [hname]
      | some name =>
        by_cases hdup : done.any (·.name == name) = true
        · refine .error ⟨num, .duplicateMacro name⟩ ?_ nofun (Or.inl rfl)
          intro rest
          rw [scan, if_pos hopen]
          simp only [hname, if_pos hdup]
        · refine .proceed done (some { name, line := num }) ?_ ?_ ?_
          · intro rest
            rw [scan, if_pos hopen]
            simp only [hname, if_neg hdup]
          · intro m hm
            rw [← Option.some.inj hm]
            exact Or.inl rfl
          · intro m hm t ht
            rcases List.mem_append.mp hm with hm | hm
            · exact Or.inr ⟨m, List.mem_append_left _ hm, ht⟩
            · -- the macro that was just opened has no body yet
              rw [List.mem_singleton.mp hm] at ht
              cases ht
    · by_cases hcode : text.hasChar Marker.code = true
      · exact .marker rfl (Bool.eq_false_iff.mpr hopen) hcode
      · refine .proceed done none ?_ (by simp) fun m hm t ht => Or.inr ⟨m, hm, ht⟩
        intro rest
        rw [scan, if_neg hopen, if_neg hcode]

/-! ## The code marker -/

/-- At the code marker the macro section ends. -/
theorem scan_marker {text : Text} (not_open : text.hasChar Marker.openMacro = false)
    (code : text.hasChar Marker.code = true) (num : Nat) (done : List Macro) (after : List Text) :
    scan num done none (text :: after) = .ok ⟨done, numbered (num + 1) after⟩ := by
  rw [scan, if_neg (Bool.eq_false_iff.mp not_open), if_pos code]

/-- Reading from line `num` on, the line after `before` is the code marker: the lines before it
define `macros` and leave none of them open, and the line has the marker but opens no macro. -/
structure BeginsFrom (num : Nat) (done : List Macro) (current : Option Macro)
    (before : List Text) (marker : Text) (macros : List Macro) : Prop where
  passed : ∀ rest,
    scan num done current (before ++ rest) = scan (before.length + num) macros none rest
  not_open : marker.hasChar Marker.openMacro = false
  code : marker.hasChar Marker.code = true

/-- In a source text, the line after `before` is the code marker. -/
abbrev Begins : List Text → Text → List Macro → Prop := BeginsFrom 1 [] none

section

variable {num : Nat} {done : List Macro} {current : Option Macro} {before : List Text}
  {marker : Text} {macros : List Macro}

/-- What follows the code marker is the code, whatever it is. -/
theorem BeginsFrom.scan_eq (h : BeginsFrom num done current before marker macros)
    (after : List Text) :
    scan num done current (before ++ marker :: after) =
      .ok ⟨macros, numbered (before.length + num + 1) after⟩ := by
  rw [h.passed, scan_marker h.not_open h.code]

/-- A line that is read over can be put before. -/
theorem BeginsFrom.cons {text : Text} {done' : List Macro} {current' : Option Macro}
    (next : ∀ rest, scan num done current (text :: rest) = scan (num + 1) done' current' rest)
    (h : BeginsFrom (num + 1) done' current' before marker macros) :
    BeginsFrom num done current (text :: before) marker macros := by
  refine ⟨?_, h.not_open, h.code⟩
  intro rest
  rw [List.cons_append, next, h.passed, List.length_cons, Nat.add_right_comm, Nat.add_assoc]

/-- How the line of the marker ends does not matter. -/
theorem BeginsFrom.stripReturn (h : BeginsFrom num done current before marker macros) :
    BeginsFrom num done current before (Text.stripReturn marker) macros :=
  ⟨h.passed, (Text.hasChar_stripReturn (by decide) marker).trans h.not_open,
    (Text.hasChar_stripReturn (by decide) marker).trans h.code⟩

end

/-- Reading succeeds only by finding the code marker. -/
theorem exists_marker_of_scan {parts : Sections} :
    ∀ {lines : List Text} {num : Nat} {done : List Macro} {current : Option Macro},
      scan num done current lines = .ok parts →
        ∃ before marker after, lines = before ++ marker :: after ∧
          BeginsFrom num done current before marker parts.macros := by
  intro lines
  induction lines with
  | nil =>
    intro num done current h
    cases current <;> cases h
  | cons text lines ih =>
    intro num done current h
    cases reads num done current text with
    | proceed done' current' next _ _ =>
      rw [next] at h
      obtain ⟨before, marker, after, rfl, hbegins⟩ := ih h
      exact ⟨text :: before, marker, after, rfl, hbegins.cons next⟩
    | error d fails _ _ =>
      rw [fails] at h
      cases h
    | marker closed not_open code =>
      subst closed
      have hbegins : BeginsFrom num done none [] text done := by
        refine ⟨?_, not_open, code⟩
        intro rest
        rw [List.nil_append, List.length_nil, Nat.zero_add]
      rw [scan_marker not_open code] at h
      rw [← Except.ok.inj h]
      exact ⟨[], text, lines, rfl, hbegins⟩

end Sections

/-- A source text has sections exactly if one of its lines is the code marker. -/
theorem sections_eq_ok_iff {src : Text} {parts : Sections} :
    sections src = .ok parts ↔ ∃ before marker after, src.lines = before ++ marker :: after ∧
      Sections.Begins before marker parts.macros ∧
        parts.code = numbered (before.length + 2) after := by
  unfold sections
  constructor
  · intro h
    obtain ⟨before, marker, after, hlines, hbegins⟩ := Sections.exists_marker_of_scan h
    rw [hlines, hbegins.scan_eq] at h
    exact ⟨before, marker, after, hlines, hbegins, (congrArg Sections.code (Except.ok.inj h)).symm⟩
  · rintro ⟨before, marker, after, hlines, hbegins, hcode⟩
    rw [hlines, hbegins.scan_eq, ← hcode]

/-! ## Bodies of macros -/

/-- Every line of a macro's body is a line of the text, or was in a body before. -/
theorem Sections.mem_of_mem_body {parts : Sections} :
    ∀ {lines : List Text} {num : Nat} {done : List Macro} {current : Option Macro},
      scan num done current lines = .ok parts →
        ∀ m ∈ parts.macros, ∀ t ∈ m.body,
          t ∈ lines ∨ ∃ m₀ ∈ done ++ current.toList, t ∈ m₀.body := by
  intro lines
  induction lines with
  | nil =>
    intro num done current h
    cases current <;> cases h
  | cons text lines ih =>
    intro num done current h m hm t ht
    cases reads num done current text with
    -- a body line was in a body before, or it is the line that was just read
    | proceed done' current' next _ body =>
      rw [next] at h
      rcases ih h m hm t ht with hmem | ⟨m₁, hm₁, hmem⟩
      · exact Or.inl (List.mem_cons_of_mem text hmem)
      · rcases body m₁ hm₁ t hmem with rfl | hbefore
        · exact Or.inl List.mem_cons_self
        · exact Or.inr hbefore
    | error d fails _ _ =>
      rw [fails] at h
      cases h
    | marker closed not_open code =>
      subst closed
      rw [scan_marker not_open code] at h
      rw [← Except.ok.inj h] at hm
      exact Or.inr ⟨m, List.mem_append_left _ hm, ht⟩

/-- Bodies are made of lines of the text. -/
theorem mem_lines_of_mem_body {src : Text} {parts : Sections} (h : sections src = .ok parts)
    {m : Macro} (hm : m ∈ parts.macros) {t : Text} (ht : t ∈ m.body) : t ∈ src.lines := by
  rcases Sections.mem_of_mem_body h m hm t ht with hmem | ⟨m₀, hm₀, _⟩
  · exact hmem
  · cases hm₀

/-! ## Line numbers -/

theorem numbered_append (first : Nat) (a b : List Text) :
    numbered first (a ++ b) = numbered first a ++ numbered (first + a.length) b := by
  unfold numbered
  rw [List.zipIdx_append, List.map_append]

theorem map_text_numbered (first : Nat) (texts : List Text) :
    (numbered first texts).map Line.text = texts := by
  unfold numbered
  rw [List.map_map]
  exact List.zipIdx_map_fst first texts

/-- The line numbers of code go up by one from line to line. -/
theorem map_num_numbered (first : Nat) (texts : List Text) :
    (numbered first texts).map Line.num = (List.range' first texts.length).map Int.ofNat := by
  unfold numbered
  rw [← List.zipIdx_map_snd first texts, List.map_map, List.map_map]
  rfl

/-- The numbers of lines begin with the first and leave none out. -/
theorem num_of_mem_numbered {first : Nat} {texts : List Text} {l : Line}
    (h : l ∈ numbered first texts) : (first : Int) ≤ l.num ∧ l.num < first + texts.length := by
  have hmem : l.num ∈ (numbered first texts).map Line.num := List.mem_map_of_mem h
  rw [map_num_numbered] at hmem
  obtain ⟨n, hn, hnum⟩ := List.mem_map.mp hmem
  obtain ⟨hlo, hhi⟩ := List.mem_range'_1.mp hn
  rw [← hnum]
  exact ⟨Int.ofNat_le.mpr hlo, Int.ofNat_lt.mpr hhi⟩

/-- No two lines have the same number. -/
theorem pairwise_num_numbered (first : Nat) (texts : List Text) :
    (numbered first texts).Pairwise (·.num < ·.num) := by
  have h : ((numbered first texts).map Line.num).Pairwise (· < ·) := by
    rw [map_num_numbered, List.pairwise_map]
    exact List.Pairwise.imp Int.ofNat_lt.mpr List.pairwise_lt_range'
  exact List.pairwise_map.mp h

/-! ## Failures -/

namespace Sections

/-- Either no code marker was found, which is on no line, or the failure is on a line that has been
read or that the open macro was defined on. -/
theorem scan_error {d : Diagnostic} :
    ∀ {lines : List Text} {num : Nat} {done : List Macro} {current : Option Macro},
      1 ≤ num → (∀ m ∈ current, 1 ≤ m.line ∧ m.line < num) →
      scan num done current lines = .error d →
        d = ⟨0, .missingCodeSection⟩ ∨
          d.kind ≠ .missingCodeSection ∧ 1 ≤ d.line ∧ d.line < num + lines.length := by
  intro lines
  induction lines with
  | nil =>
    intro num done current _ hcurrent h
    cases current with
    | none => exact Or.inl (Except.error.inj h).symm
    | some m =>
      obtain ⟨hlo, hhi⟩ := hcurrent m rfl
      rw [← Except.error.inj h]
      exact Or.inr ⟨nofun, hlo, by simpa using hhi⟩
  | cons text lines ih =>
    intro num done current hnum hcurrent h
    rw [List.length_cons]
    cases reads num done current text with
    | proceed done' current' next line _ =>
      rw [next] at h
      -- a macro that is open was opened on this line or an earlier one
      have hcurrent' : ∀ m ∈ current', 1 ≤ m.line ∧ m.line < ((num + 1 : Nat) : Int) := by
        intro m hm
        rcases line m hm with hline | ⟨m₀, hm₀, hline⟩
        · omega
        · have := hcurrent m₀ hm₀
          omega
      rcases ih (Nat.le_add_left 1 num) hcurrent' h with hd | ⟨hkind, hlo, hhi⟩
      · exact Or.inl hd
      · exact Or.inr ⟨hkind, hlo, by omega⟩
    | error d' fails kind line =>
      rw [fails] at h
      obtain rfl := Except.error.inj h
      refine Or.inr ⟨kind, ?_⟩
      rcases line with hline | ⟨m, hm, hline⟩
      · omega
      · have := hcurrent m hm
        omega
    | marker closed not_open code =>
      subst closed
      rw [scan_marker not_open code] at h
      cases h

end Sections

/-- Only a missing code section is reported on no line. -/
theorem sections_error {src : Text} {d : Diagnostic} (h : sections src = .error d) :
    d = ⟨0, .missingCodeSection⟩ ∨
      d.kind ≠ .missingCodeSection ∧ 1 ≤ d.line ∧ d.line ≤ src.lines.length := by
  rcases Sections.scan_error (Nat.le_refl 1) (by simp) h with hd | ⟨hkind, hlo, hhi⟩
  · exact Or.inl hd
  · exact Or.inr ⟨hkind, hlo, by omega⟩

end Glyph8
