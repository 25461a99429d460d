import Glyph8.Proofs.Assembly.Partition

/-!
# Names of macros

A line opens a macro if the marker of a definition occurs in it, wherever that is. The name is the
second word of the line. The two rules were meant for lines on which the marker comes first, and
there they fit together: the name is the word after the marker.

`nameAfterMarker?` finds the word after the first word with the marker, and `MarkerLeads` says that
this is the first word of the line. Where the marker leads, the word after it is the name
(`MarkerLeads.nameAfterMarker?_eq`). And a name can be missing only there: if the marker stands in a
later word, the line has a second word (`macroName?_eq_none_iff`).

The main result, `macro_named_by_second_word`, says this of whole source files, with the layout of
the lines before the opening line.

With a word before the marker, the macro gets another name, the marker itself perhaps. So the rule
"the name follows the marker" does not hold in general; `word_before_marker` is the smallest case.
-/

namespace Glyph8

/-! ## The word after the marker -/

namespace Sections

/-- The word that follows the first word with the marker of a definition. -/
def nameAfterMarker? (line : Text) : Option Text :=
  (line.words.dropWhile (!Text.hasChar Marker.openMacro ·))[1]?

/-- The marker of a definition is in the first word of the line. -/
def MarkerLeads (line : Text) : Prop :=
  ∃ w rest, line.words = w :: rest ∧ w.hasChar Marker.openMacro = true

variable {line : Text}

/-- After a marker in the first word, the next word is the second. -/
theorem MarkerLeads.nameAfterMarker?_eq (h : MarkerLeads line) :
    nameAfterMarker? line = macroName? line := by
  obtain ⟨w, rest, hwords, hw⟩ := h
  unfold nameAfterMarker? macroName?
  rw [hwords, List.dropWhile_cons_of_neg (by rw [hw]; decide)]

/-- A name is missing where the marker leads the line and no word follows it. -/
theorem macroName?_eq_none_iff (hopen : line.hasChar Marker.openMacro = true) :
    macroName? line = none ↔ MarkerLeads line ∧ nameAfterMarker? line = none := by
  constructor
  · intro hnone
    -- the marker is in some word, and there is only one word
    obtain ⟨w, hmem, hw⟩ := Text.exists_word_of_hasChar (by decide) hopen
    have hlength : line.words.length ≤ 1 := List.getElem?_eq_none_iff.mp hnone
    obtain ⟨first, rest, hwords⟩ := List.exists_cons_of_ne_nil (List.ne_nil_of_mem hmem)
    have hrest : rest = [] := by
      rw [hwords, List.length_cons] at hlength
      exact List.eq_nil_of_length_eq_zero (by omega)
    subst hrest
    rw [hwords] at hmem
    have hleads : MarkerLeads line := ⟨first, [], hwords, List.mem_singleton.mp hmem ▸ hw⟩
    exact ⟨hleads, hleads.nameAfterMarker?_eq.trans hnone⟩
  · intro h
    exact h.1.nameAfterMarker?_eq.symm.trans h.2

end Sections

/-- A macro is named by the second word of the line that opens it. That is the word after the marker
if the marker leads the line, and only then no name is found. -/
theorem macro_named_by_second_word (src : Text) :
    (∀ parts, sections src = .ok parts → ∀ m ∈ parts.macros, ∃ before opening after,
      src.lines = before ++ opening :: after ∧ m.line = before.length + 1 ∧
        opening.hasChar Marker.openMacro = true ∧ opening.words[1]? = some m.name ∧
        (Sections.MarkerLeads opening → Sections.nameAfterMarker? opening = some m.name)) ∧
      ∀ num : Int, sections src = .error ⟨num, .macroNameMissing⟩ ↔
        ∃ before opening after macros, src.lines = before ++ opening :: after ∧
          Sections.Preamble before macros ∧ num = before.length + 1 ∧
          opening.hasChar Marker.openMacro = true ∧
          Sections.MarkerLeads opening ∧ Sections.nameAfterMarker? opening = none := by
  constructor
  · intro parts h m hm
    cases sections_eq_iff.mp h with
    | @parts before after marker macros hlines hpreamble not_open code =>
      -- the macro was defined in the preamble, and its name was taken from the opening line
      obtain ⟨top, opening, closing, rest, htop, hline, hdef⟩ := hpreamble.exists_definition hm
      refine ⟨top, opening, m.body ++ closing :: rest ++ marker :: after, ?_, hline, hdef.opens,
        hdef.named, fun hleads => hleads.nameAfterMarker?_eq.trans hdef.named⟩
      rw [hlines, htop, List.append_assoc, List.cons_append]
  · intro num
    rw [sections_eq_iff]
    constructor
    · intro h
      cases h with
      | nameless hlines hpreamble opens nameless =>
        exact ⟨_, _, _, _, hlines, hpreamble, rfl, opens,
          (Sections.macroName?_eq_none_iff opens).mp nameless⟩
    · intro h
      obtain ⟨before, opening, after, macros, hlines, hpreamble, rfl, opens, hmissing⟩ := h
      exact .nameless hlines hpreamble opens ((Sections.macroName?_eq_none_iff opens).mpr hmissing)

/-- A macro whose marker leads its line, with blanks and a comment around the name. -/
def ledSource : Text := utf8 "junk\n  #🔓 inc # 🔓\n🔒\n💬"

/-- The same macro, and then one without a name. -/
def namelessSource : Text := utf8 "junk\n  #🔓 inc # 🔓\n🔒\n🔓dec \n💬"

/-- The comment sign before the marker belongs to the first word, and what follows the name does not
matter. -/
theorem macro_named_by_second_word_each :
    (sections ledSource = .ok ⟨[⟨utf8 "inc", 2, []⟩], []⟩ ∧
      ∃ before opening after, ledSource.lines = before ++ opening :: after ∧
        (2 : Int) = before.length + 1 ∧ opening.words[1]? = some (utf8 "inc")) ∧
      sections namelessSource = .error ⟨4, .macroNameMissing⟩ := by
  constructor
  · have hread : sections ledSource = .ok ⟨[⟨utf8 "inc", 2, []⟩], []⟩ := by decide +kernel
    obtain ⟨before, opening, after, hlines, hline, _, hname, _⟩ :=
      (macro_named_by_second_word ledSource).1 _ hread _ List.mem_cons_self
    exact ⟨hread, before, opening, after, hlines, hline, hname⟩
  · have hbefore : Sections.Preamble [utf8 "junk", utf8 "  #🔓 inc # 🔓", utf8 "🔒"]
        [⟨utf8 "inc", 2, []⟩] :=
      .definition (m := ⟨utf8 "inc", 2, []⟩) (.ignored .nil (by decide +kernel) (by decide +kernel))
        ⟨by decide +kernel, by decide +kernel, nofun, by decide +kernel⟩ rfl (by decide)
    refine ((macro_named_by_second_word namelessSource).2 4).mpr
      ⟨_, utf8 "🔓dec ", [utf8 "💬"], _, by decide +kernel, hbefore, rfl, by decide +kernel, ?_,
        by decide +kernel⟩
    exact ⟨utf8 "🔓dec", [], by decide +kernel, by decide +kernel⟩

/-- With a word before the marker, a macro is not named by the word after the marker, and it has a
name where no word follows the marker. -/
theorem word_before_marker :
    (sections (utf8 "x 🔓 inc\n🔒\n💬") = .ok ⟨[⟨utf8 "🔓", 1, []⟩], []⟩ ∧
      Sections.nameAfterMarker? (utf8 "x 🔓 inc") = some (utf8 "inc") ∧
        utf8 "inc" ≠ utf8 "🔓") ∧
      sections (utf8 "x 🔓\n🔒\n💬") = .ok ⟨[⟨utf8 "🔓", 1, []⟩], []⟩ ∧
        Sections.nameAfterMarker? (utf8 "x 🔓") = none := by
  decide +kernel

end Glyph8
