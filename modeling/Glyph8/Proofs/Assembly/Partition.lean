import Glyph8.Proofs.Assembly.Layout
import Glyph8.Proofs.Text.Tokens

/-!
# Sections partition a source file

Splitting a file into its macros and its code should neither lose nor invent lines. This module says
so in both directions.

From parts to files: a file that is written as macros, each from an opening to a closing line, and
then a marker and code, is read back as these macros and this code (`sections_written`). Names and
bodies may be of any bytes, as long as a name is one word and no body line ends the definition
(`Macro.Writable`). Markers may occur in names and code, and an opening marker even in a body. The
numbers of the lines are computed (`Macro.placedFrom`), since each definition takes up as many lines
as its body has and two more.

From files to parts: whatever file is read, `Sections.Divides` holds of the result. Names are all
different, the definitions lie apart and in order, and each body is what lies between an opening
line and the next closing line. The code follows the first line outside every definition that has
the code marker and opens no macro. Everything before it belongs to a definition or has no marker.
This is read off the preamble of the file, by induction on it.

The main result, `sections_partition_source`, is both directions together.
-/

namespace Glyph8

/-! ## What a preamble consists of -/

/-- The line with number `num` belongs to the definition of the macro. -/
def Macro.Spans (m : Macro) (num : Int) : Prop := m.line ≤ num ∧ num ≤ m.line + m.body.length + 1

namespace Sections.Preamble

variable {lines : List Text} {macros : List Macro} {m : Macro}

/-- No two macros of a preamble have the same name. -/
theorem names_nodup (h : Preamble lines macros) : (macros.map Macro.name).Nodup := by
  induction h with
  | nil => exact List.nodup_nil
  | ignored _ _ _ ih => exact ih
  | definition _ _ _ new ih =>
    rw [List.map_append]
    refine List.nodup_append.mpr ⟨ih, by simp, ?_⟩
    intro a ha b hb heq
    exact new (List.mem_singleton.mp hb ▸ heq ▸ ha)

/-- A definition ends within the preamble. -/
theorem last_le (h : Preamble lines macros) (hm : m ∈ macros) :
    m.line + m.body.length + 1 ≤ lines.length := by
  induction h with
  | nil => cases hm
  | ignored _ _ _ ih =>
    have hle := ih hm
    rw [List.length_append]
    omega
  | @definition lines macros n opening closing _ _ line _ ih =>
    simp only [List.length_append, List.length_cons, List.length_nil]
    rcases List.mem_append.mp hm with hm | hm
    · have hle := ih hm
      omega
    · rw [List.mem_singleton.mp hm]
      omega

/-- A definition begins after those before it have ended. -/
theorem pairwise_apart (h : Preamble lines macros) :
    macros.Pairwise fun m n : Macro => m.line + m.body.length + 1 < n.line := by
  induction h with
  | nil => exact List.Pairwise.nil
  | ignored _ _ _ ih => exact ih
  | definition h _ line _ ih =>
    refine List.pairwise_append.mpr ⟨ih, List.pairwise_singleton _ _, ?_⟩
    intro m hm n hn
    have hle := h.last_le hm
    rw [List.mem_singleton.mp hn]
    omega

/-- A macro has its lines in the preamble. -/
theorem exists_definition (h : Preamble lines macros) (hm : m ∈ macros) :
    ∃ before opening closing after, lines = before ++ opening :: (m.body ++ closing :: after) ∧
      m.line = before.length + 1 ∧ m.DefinedBy opening closing := by
  induction h with
  | nil => cases hm
  | @ignored lines macros text _ _ _ ih =>
    obtain ⟨before, opening, closing, after, hlines, hline, hdef⟩ := ih hm
    refine ⟨before, opening, closing, after ++ [text], ?_, hline, hdef⟩
    simp [hlines]
  | @definition lines macros n opening closing _ defined line _ ih =>
    rcases List.mem_append.mp hm with hm | hm
    · obtain ⟨before, opening', closing', after, hlines, hline, hdef⟩ := ih hm
      refine ⟨before, opening', closing', after ++ opening :: (n.body ++ [closing]), ?_,
        hline, hdef⟩
      simp [hlines]
    · rw [List.mem_singleton.mp hm]
      exact ⟨lines, opening, closing, [], rfl, line, defined⟩

/-- A line of a preamble belongs to a definition or has no marker. -/
theorem spans_or_ignored (h : Preamble lines macros) {i : Nat} {text : Text}
    (htext : lines[i]? = some text) :
    (∃ m ∈ macros, m.Spans (i + 1)) ∨
      text.hasChar Marker.openMacro = false ∧ text.hasChar Marker.code = false := by
  induction h with
  | nil => cases htext
  | @ignored lines macros t _ not_open not_code ih =>
    by_cases hi : i < lines.length
    · rw [List.getElem?_append_left hi] at htext
      exact ih htext
    · rw [List.getElem?_append_right (Nat.le_of_not_lt hi)] at htext
      have ht : t = text := List.mem_singleton.mp (List.mem_of_getElem? htext) |>.symm
      rw [← ht]
      exact Or.inr ⟨not_open, not_code⟩
  | @definition lines macros m opening closing _ _ line _ ih =>
    -- lines after the earlier ones belong to the new definition, its first and last line included
    by_cases hi : i < lines.length
    · rw [List.getElem?_append_left hi] at htext
      rcases ih htext with ⟨n, hn, hspans⟩ | hignored
      · exact Or.inl ⟨n, List.mem_append_left _ hn, hspans⟩
      · exact Or.inr hignored
    · have hlt := (List.getElem?_eq_some_iff.mp htext).1
      simp only [List.length_append, List.length_cons, List.length_nil] at hlt
      refine Or.inl ⟨m, List.mem_append_right _ List.mem_cons_self, ?_⟩
      unfold Macro.Spans
      omega

end Sections.Preamble

/-! ## Files that are read -/

/-- The macros and the code of a file are the parts that its lines are divided into. -/
structure Sections.Divides (parts : Sections) (lines : List Text) : Prop where
  names_nodup : (parts.macros.map Macro.name).Nodup
  lines_increase : parts.macros.Pairwise (·.line < ·.line)
  /-- A body is what lies between an opening line and the next closing line. -/
  body_between : ∀ m ∈ parts.macros, ∃ before opening closing after,
    lines = before ++ opening :: (m.body ++ closing :: after) ∧ m.line = before.length + 1 ∧
      opening.hasChar Marker.openMacro = true ∧ closing.hasChar Marker.closeMacro = true ∧
      ∀ t ∈ m.body, t.hasChar Marker.closeMacro = false ∧ t.hasChar Marker.code = false
  /-- The code follows the first line outside every definition that has the code marker and opens no
  macro: a line before it belongs to a definition or has neither marker. -/
  code_after : ∃ before marker after, lines = before ++ marker :: after ∧
    parts.code = numbered (before.length + 2) after ∧
    marker.hasChar Marker.code = true ∧ marker.hasChar Marker.openMacro = false ∧
    (∀ m ∈ parts.macros, ¬m.Spans (before.length + 1)) ∧
    ∀ (i : Nat) (text : Text), before[i]? = some text → (∃ m ∈ parts.macros, m.Spans (i + 1)) ∨
      text.hasChar Marker.openMacro = false ∧ text.hasChar Marker.code = false

/-- A file that is read is divided into the parts that are found. -/
theorem divides_of_sections {src : Text} {parts : Sections} (h : sections src = .ok parts) :
    parts.Divides src.lines := by
  cases sections_eq_iff.mp h with
  | @parts before after marker macros hlines hpreamble not_open code =>
    rw [hlines]
    refine ⟨hpreamble.names_nodup, ?_, ?_, before, marker, after, rfl, rfl, code, not_open, ?_, ?_⟩
    · refine hpreamble.pairwise_apart.imp ?_
      intro m n hapart
      omega
    · intro m hm
      obtain ⟨top, opening, closing, rest, htop, hline, hdef⟩ := hpreamble.exists_definition hm
      refine ⟨top, opening, closing, rest ++ marker :: after, ?_, hline, hdef.opens, hdef.closes,
        hdef.body⟩
      simp [htop]
    · -- all definitions have ended before the marker
      intro m hm hspans
      have hle := hpreamble.last_le hm
      have hlast := hspans.2
      omega
    · exact fun _ _ => hpreamble.spans_or_ignored

/-! ## Files that are written -/

namespace Text

/-- A text that can stand between newlines: it has none and does not end in a carriage return. -/
structure IsLine (t : Text) : Prop where
  newline_not_mem : newline ∉ t
  not_return : t.getLast? ≠ some carriageReturn

instance (t : Text) : Decidable t.IsLine :=
  decidable_of_iff (newline ∉ t ∧ t.getLast? ≠ some carriageReturn)
    ⟨fun h => ⟨h.1, h.2⟩, fun h => ⟨h.newline_not_mem, h.not_return⟩⟩

end Text

namespace Macro

/-- A macro that a file can define: its name is a word, and its body is lines that do not end the
definition. -/
structure Writable (m : Macro) : Prop where
  name_ne_nil : m.name ≠ []
  name_solid : ∀ r ∈ m.name.runes, r.isBlank = false
  body : Sections.IsBody m.body
  body_lines : ∀ t ∈ m.body, t.IsLine

instance (m : Macro) : Decidable m.Writable :=
  decidable_of_iff (m.name ≠ [] ∧ (∀ r ∈ m.name.runes, r.isBlank = false) ∧
      (∀ t ∈ m.body, t.hasChar Marker.closeMacro = false ∧ t.hasChar Marker.code = false) ∧
        ∀ t ∈ m.body, t.IsLine)
    ⟨fun h => ⟨h.1, h.2.1, h.2.2.1, h.2.2.2⟩,
      fun h => ⟨h.name_ne_nil, h.name_solid, h.body, h.body_lines⟩⟩

/-- The line that opens a macro: the marker and the name. -/
def opening (m : Macro) : Text := Text.ofChars [Marker.openMacro] ++ Text.space :: m.name

/-- The line that closes a macro. -/
def closing : Text := Text.ofChars [Marker.closeMacro]

/-- The lines of a definition. -/
def source (m : Macro) : List Text := m.opening :: (m.body ++ [closing])

/-- The macros with the numbers of the lines they are defined on, if the first is on line `first`
and nothing stands between them. -/
def placedFrom (first : Nat) : List Macro → List Macro
  | [] => []
  | m :: macros => { m with line := first } :: placedFrom (first + m.body.length + 2) macros

variable {m : Macro}

theorem length_source (m : Macro) : m.source.length = m.body.length + 2 := by
  unfold source
  rw [List.length_cons, List.length_append, List.length_singleton]

theorem hasChar_opening (m : Macro) : m.opening.hasChar Marker.openMacro = true := by
  unfold opening Text.hasChar
  rw [Text.runes_append_ascii (by decide), Text.runes_ofChars, List.contains_iff_mem]
  exact List.mem_append_left _ List.mem_cons_self

/-- The name on the opening line is read back. -/
theorem Writable.macroName?_opening (h : m.Writable) :
    Sections.macroName? m.opening = some m.name := by
  unfold Sections.macroName? opening
  rw [Text.words_append_ascii (by decide) (by decide),
    Text.words_of_solid h.name_ne_nil h.name_solid,
    Text.words_ofChars_of_solid (List.cons_ne_nil _ _) (List.forall_mem_singleton.mpr (by decide))]
  rfl

/-- The written lines define the macro. -/
theorem Writable.definedBy (h : m.Writable) (line : Int) :
    Macro.DefinedBy { m with line } m.opening closing :=
  ⟨m.hasChar_opening, h.macroName?_opening, h.body, by decide⟩

theorem Writable.isLine_opening (h : m.Writable) : m.opening.IsLine := by
  have hnot : ∀ b : UInt8, b.toNat < 0x80 → isBlankChar (Char.ofNat b.toNat) = true →
      b ∉ Text.ofChars [Marker.openMacro] → b ≠ Text.space → b ∉ m.opening := by
    intro b hb hblank hmarker hspace hmem
    rcases List.mem_append.mp hmem with hmem | hmem
    · exact hmarker hmem
    · rcases List.mem_cons.mp hmem with hmem | hmem
      · exact hspace hmem
      · exact Text.not_mem_of_solid h.name_solid hb hblank hmem
  constructor
  · exact hnot _ (by decide) (by decide) (by decide) (by decide)
  · intro hlast
    exact hnot _ (by decide) (by decide) (by decide) (by decide) (List.mem_of_getLast? hlast)

/-- Every line of a written definition can stand between newlines. -/
theorem Writable.isLine_of_mem (h : m.Writable) {t : Text} (ht : t ∈ m.source) : t.IsLine := by
  rcases List.mem_cons.mp ht with rfl | ht
  · exact h.isLine_opening
  · rcases List.mem_append.mp ht with ht | ht
    · exact h.body_lines t ht
    · rw [List.mem_singleton.mp ht]
      exact ⟨by decide, by decide⟩

end Macro

/-- The lines of a file that defines `macros` and has the given code. -/
def Sections.sourceLines (macros : List Macro) (code : List Text) : List Text :=
  macros.flatMap Macro.source ++ Text.ofChars [Marker.code] :: code

/-- Written definitions go on with a preamble. -/
theorem Sections.Preamble.append_sources {macros : List Macro} :
    ∀ {lines : List Text} {done : List Macro}, Preamble lines done → (∀ m ∈ macros, m.Writable) →
      ((done ++ macros).map Macro.name).Nodup →
      Preamble (lines ++ macros.flatMap Macro.source)
        (done ++ Macro.placedFrom (lines.length + 1) macros) := by
  induction macros with
  | nil =>
    intro lines done h _ _
    rw [List.flatMap_nil, List.append_nil, Macro.placedFrom, List.append_nil]
    exact h
  | cons m macros ih =>
    intro lines done h hwritable hnodup
    have hm : m.Writable := hwritable m List.mem_cons_self
    have hnew : m.name ∉ done.map Macro.name := by
      rw [List.map_append, List.map_cons] at hnodup
      intro hmem
      exact (List.nodup_append.mp hnodup).2.2 _ hmem _ List.mem_cons_self rfl
    -- the lines written so far are a preamble, and their number gives the line of the next macro
    have hnext : Preamble (lines ++ m.source) (done ++ [{ m with line := lines.length + 1 }]) :=
      h.definition (hm.definedBy _) rfl hnew
    have hrest := ih hnext (fun n hn => hwritable n (List.mem_cons_of_mem m hn))
      (by simpa using hnodup)
    have hfirst : (lines ++ m.source).length + 1 = lines.length + 1 + m.body.length + 2 := by
      rw [List.length_append, Macro.length_source]
      omega
    rw [hfirst, List.append_assoc, List.append_assoc] at hrest
    exact hrest

/-- A file that is written from macros and code is read back as these. -/
theorem sections_written {macros : List Macro} {code : List Text}
    (hnames : (macros.map Macro.name).Nodup) (hmacros : ∀ m ∈ macros, m.Writable)
    (hcode : ∀ t ∈ code, t.IsLine) :
    sections (Text.joinWith Text.newline (Sections.sourceLines macros code)) =
      .ok ⟨Macro.placedFrom 1 macros,
        numbered ((macros.flatMap Macro.source).length + 2) code⟩ := by
  have hline : ∀ t ∈ Sections.sourceLines macros code, t.IsLine := by
    intro t ht
    rcases List.mem_append.mp ht with ht | ht
    · obtain ⟨m, hm, ht⟩ := List.mem_flatMap.mp ht
      exact (hmacros m hm).isLine_of_mem ht
    · rcases List.mem_cons.mp ht with rfl | ht
      · exact ⟨by decide, by decide⟩
      · exact hcode t ht
  have hlines : (Text.joinWith Text.newline (Sections.sourceLines macros code)).lines =
      Sections.sourceLines macros code :=
    Text.lines_joinWith (List.append_ne_nil_of_right_ne_nil _ (List.cons_ne_nil _ _))
      (fun t ht => (hline t ht).newline_not_mem) (fun t ht => (hline t ht).not_return)
  have hpreamble : Sections.Preamble (macros.flatMap Macro.source) (Macro.placedFrom 1 macros) :=
    Sections.Preamble.nil.append_sources hmacros hnames
  rw [sections_eq_iff, hlines]
  exact .parts rfl hpreamble (by decide) (by decide)

/-- Splitting into sections inverts writing them, and divides every file that it accepts. -/
theorem sections_partition_source :
    (∀ (macros : List Macro) (code : List Text), (macros.map Macro.name).Nodup →
      (∀ m ∈ macros, m.Writable) → (∀ t ∈ code, t.IsLine) →
        sections (Text.joinWith Text.newline (Sections.sourceLines macros code)) =
          .ok ⟨Macro.placedFrom 1 macros,
            numbered ((macros.flatMap Macro.source).length + 2) code⟩) ∧
      ∀ (src : Text) (parts : Sections), sections src = .ok parts → parts.Divides src.lines :=
  ⟨fun _ _ => sections_written, fun _ _ => divides_of_sections⟩

/-- A macro with markers in its name and body, and one whose name is no valid text. -/
def markedMacros : List Macro := [⟨utf8 "🔒#", 0, [utf8 "🔓 _", [], utf8 "\ra"]⟩, ⟨[0xF0], 0, []⟩]

/-- Code with every marker. -/
def markedCode : List Text := [utf8 "💬 🔓 x", [], utf8 "🔒\rb"]

/-- Markers in a name, in a body and in the code are no obstacle, nor is a name that is no valid
text. -/
theorem sections_partition_source_marked :
    let src := Text.joinWith Text.newline (Sections.sourceLines markedMacros markedCode)
    let parts : Sections :=
      ⟨[⟨utf8 "🔒#", 1, [utf8 "🔓 _", [], utf8 "\ra"]⟩, ⟨[0xF0], 6, []⟩],
        [⟨9, utf8 "💬 🔓 x"⟩, ⟨10, []⟩, ⟨11, utf8 "🔒\rb"⟩]⟩
    sections src = .ok parts ∧ parts.Divides src.lines := by
  intro src parts
  have hread : sections src = .ok parts :=
    sections_partition_source.1 markedMacros markedCode (by decide +kernel) (by decide +kernel)
      (by decide +kernel)
  exact ⟨hread, sections_partition_source.2 src parts hread⟩

end Glyph8
