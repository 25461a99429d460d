import Glyph8.Proofs.Assembly.Sectioning

/-!
# How a source file is laid out

Before the code marker, a source file has definitions of macros, and between them lines that are
ignored. The file is read line by line, with the macros so far and the macro that is open carried
along. From that it is hard to see what a whole file is read as.

`Preamble` says what the lines before the code marker may be, without reading line by line: a
definition is its opening line, its body and its closing line as one piece. `Reading` then lists the
six ways in which a file can go on after such a beginning: the code marker comes; the file ends
without it; or a macro has no name, has the name of an earlier one, is still open at the code
marker, or is never closed.

Reading goes over a preamble and has its macros then (`Preamble.scan_append`), by one lemma for each
kind of line; so each of the six ways has the answer that its case names (`Reading.scan_eq`). In the
other direction, every file goes on in one of the six ways (`Preamble.exists_reading`), by induction
on the number of lines left. Both together are `sections_eq_iff`: `sections` answers exactly as the
layout says.
-/

namespace Glyph8

/-! ## Definitions -/

/-- The lines can be the body of a macro: none closes it or begins the code. -/
def Sections.IsBody (body : List Text) : Prop :=
  ∀ t ∈ body, t.hasChar Marker.closeMacro = false ∧ t.hasChar Marker.code = false

/-- The lines `opening` and `closing`, with the body of `m` between them, define `m`. -/
structure Macro.DefinedBy (m : Macro) (opening closing : Text) : Prop where
  opens : opening.hasChar Marker.openMacro = true
  named : Sections.macroName? opening = some m.name
  body : Sections.IsBody m.body
  closes : closing.hasChar Marker.closeMacro = true

namespace Sections

/-- Lines at the beginning of a source file that define `macros` and leave none of them open. -/
inductive Preamble : List Text → List Macro → Prop
  | nil : Preamble [] []
  | ignored {lines : List Text} {macros : List Macro} {text : Text} (h : Preamble lines macros)
      (not_open : text.hasChar Marker.openMacro = false)
      (not_code : text.hasChar Marker.code = false) : Preamble (lines ++ [text]) macros
  | definition {lines : List Text} {macros : List Macro} {m : Macro} {opening closing : Text}
      (h : Preamble lines macros) (defined : m.DefinedBy opening closing)
      (line : m.line = lines.length + 1) (new : m.name ∉ macros.map Macro.name) :
      Preamble (lines ++ opening :: (m.body ++ [closing])) (macros ++ [m])

/-! ## Reading a definition -/

section

variable {num : Nat} {done : List Macro} {text name : Text} {m : Macro}

theorem any_name_iff : done.any (·.name == name) = true ↔ name ∈ done.map Macro.name := by
  rw [List.any_eq_true, List.mem_map]
  exact exists_congr fun m => and_congr_right' beq_iff_eq

/-- A line that opens a macro of a new name. -/
theorem scan_opening (hopen : text.hasChar Marker.openMacro = true)
    (hname : macroName? text = some name) (hnew : name ∉ done.map Macro.name) (rest : List Text) :
    scan num done none (text :: rest) = scan (num + 1) done (some { name, line := num }) rest := by
  rw [scan, if_pos hopen]
  simp only [hname]
  rw [if_neg (any_name_iff.not.mpr hnew)]

/-- A name that is taken stops the reading. -/
theorem scan_opening_duplicate (hopen : text.hasChar Marker.openMacro = true)
    (hname : macroName? text = some name) (hdup : name ∈ done.map Macro.name) (rest : List Text) :
    scan num done none (text :: rest) = .error ⟨num, .duplicateMacro name⟩ := by
  rw [scan, if_pos hopen]
  simp only [hname]
  rw [if_pos (any_name_iff.mpr hdup)]

/-- A macro without a name stops the reading. -/
theorem scan_opening_nameless (hopen : text.hasChar Marker.openMacro = true)
    (hname : macroName? text = none) (rest : List Text) :
    scan num done none (text :: rest) = .error ⟨num, .macroNameMissing⟩ := by
  rw [scan, if_pos hopen]
  simp only [hname]

/-- Lines of a body go to the macro that is open. -/
theorem scan_body {body : List Text} (hbody : IsBody body) (rest : List Text) :
    scan num done (some m) (body ++ rest) =
      scan (num + body.length) done (some { m with body := m.body ++ body }) rest := by
  induction body generalizing num m with
  | nil => simp
  | cons t body ih =>
    obtain ⟨hclose, hcode⟩ := hbody t List.mem_cons_self
    have hrest : IsBody body := fun u hu => hbody u (List.mem_cons_of_mem t hu)
    rw [List.cons_append, scan, if_neg (Bool.eq_false_iff.mp hclose),
      if_neg (Bool.eq_false_iff.mp hcode), ih hrest, List.length_cons]
    simp only [List.append_assoc, List.singleton_append, Nat.add_assoc, Nat.add_comm 1]

/-- A line that closes the open macro, whatever else it holds. -/
theorem scan_closing (hclose : text.hasChar Marker.closeMacro = true) (rest : List Text) :
    scan num done (some m) (text :: rest) = scan (num + 1) (done ++ [m]) none rest := by
  rw [scan, if_pos hclose]

/-- A whole definition adds its macro and leaves none open. -/
theorem scan_definition {opening closing : Text} (h : m.DefinedBy opening closing)
    (hline : m.line = num) (hnew : m.name ∉ done.map Macro.name) (rest : List Text) :
    scan num done none (opening :: (m.body ++ closing :: rest)) =
      scan (num + m.body.length + 2) (done ++ [m]) none rest := by
  rw [scan_opening h.opens h.named hnew, scan_body h.body, scan_closing h.closes, List.nil_append,
    ← hline, Nat.add_right_comm num 1]

end

/-- Reading goes over a preamble and has its macros then. -/
theorem Preamble.scan_append {lines : List Text} {macros : List Macro} (h : Preamble lines macros)
    (rest : List Text) :
    scan 1 [] none (lines ++ rest) = scan (lines.length + 1) macros none rest := by
  -- a preamble grows at its end, so the induction is for every rest
  induction h generalizing rest with
  | nil => rfl
  | @ignored lines macros text _ not_open not_code ih =>
    rw [List.append_assoc, ih, List.singleton_append, scan, if_neg (Bool.eq_false_iff.mp not_open),
      if_neg (Bool.eq_false_iff.mp not_code), List.length_append, List.length_singleton]
  | @definition lines macros m opening closing _ defined line new ih =>
    rw [List.append_assoc, ih, List.cons_append, List.append_assoc, List.singleton_append,
      scan_definition defined (by rw [line]; rfl) new]
    congr 1
    simp only [List.length_append, List.length_cons, List.length_nil]
    omega

/-! ## Reading a file -/

/-- What a source file with the given lines is read as. -/
inductive Reading (lines : List Text) : Except Diagnostic Sections → Prop
  | parts {before after : List Text} {marker : Text} {macros : List Macro}
      (hlines : lines = before ++ marker :: after) (h : Preamble before macros)
      (not_open : marker.hasChar Marker.openMacro = false)
      (code : marker.hasChar Marker.code = true) :
      Reading lines (.ok ⟨macros, numbered (before.length + 2) after⟩)
  | noCode {macros : List Macro} (h : Preamble lines macros) :
      Reading lines (.error ⟨0, .missingCodeSection⟩)
  | nameless {before after : List Text} {opening : Text} {macros : List Macro}
      (hlines : lines = before ++ opening :: after) (h : Preamble before macros)
      (opens : opening.hasChar Marker.openMacro = true) (nameless : macroName? opening = none) :
      Reading lines (.error ⟨before.length + 1, .macroNameMissing⟩)
  | duplicate {before after : List Text} {opening name : Text} {macros : List Macro}
      (hlines : lines = before ++ opening :: after) (h : Preamble before macros)
      (opens : opening.hasChar Marker.openMacro = true) (named : macroName? opening = some name)
      (old : name ∈ macros.map Macro.name) :
      Reading lines (.error ⟨before.length + 1, .duplicateMacro name⟩)
  | openAtCode {before body after : List Text} {opening name marker : Text} {macros : List Macro}
      (hlines : lines = before ++ opening :: (body ++ marker :: after)) (h : Preamble before macros)
      (opens : opening.hasChar Marker.openMacro = true) (named : macroName? opening = some name)
      (new : name ∉ macros.map Macro.name) (body : IsBody body)
      (not_closed : marker.hasChar Marker.closeMacro = false)
      (code : marker.hasChar Marker.code = true) :
      Reading lines (.error ⟨before.length + 1, .macroOpenAtCode name⟩)
  | neverClosed {before body : List Text} {opening name : Text} {macros : List Macro}
      (hlines : lines = before ++ opening :: body) (h : Preamble before macros)
      (opens : opening.hasChar Marker.openMacro = true) (named : macroName? opening = some name)
      (new : name ∉ macros.map Macro.name) (body : IsBody body) :
      Reading lines (.error ⟨before.length + 1, .macroNeverClosed name⟩)

/-- Reading gives what the layout says. -/
theorem Reading.scan_eq {lines : List Text} {r : Except Diagnostic Sections} (h : Reading lines r) :
    scan 1 [] none lines = r := by
  -- reading goes over the preamble, and what stands after it decides
  cases h with
  | parts hlines h not_open code => rw [hlines, h.scan_append, scan_marker not_open code]
  | noCode h =>
    rw [← List.append_nil lines, h.scan_append]
    rfl
  | nameless hlines h opens nameless =>
    rw [hlines, h.scan_append, scan_opening_nameless opens nameless]
    rfl
  | duplicate hlines h opens named old =>
    rw [hlines, h.scan_append, scan_opening_duplicate opens named old]
    rfl
  | openAtCode hlines h opens named new body not_closed code =>
    rw [hlines, h.scan_append, scan_opening opens named new, scan_body body, scan,
      if_neg (Bool.eq_false_iff.mp not_closed), if_pos code]
    rfl
  | @neverClosed before body opening name macros hlines h opens named new hbody =>
    rw [hlines, h.scan_append, scan_opening opens named new, ← List.append_nil body,
      scan_body hbody]
    rfl

/-- The first line that closes a macro or begins the code, if there is one. -/
theorem exists_end_of_body (lines : List Text) :
    (∃ body text after, lines = body ++ text :: after ∧ IsBody body ∧
      (text.hasChar Marker.closeMacro = true ∨
        text.hasChar Marker.closeMacro = false ∧ text.hasChar Marker.code = true)) ∨
      IsBody lines := by
  induction lines with
  | nil => exact Or.inr nofun
  | cons t lines ih =>
    by_cases hclose : t.hasChar Marker.closeMacro = true
    · exact Or.inl ⟨[], t, lines, rfl, nofun, Or.inl hclose⟩
    · rw [Bool.not_eq_true] at hclose
      by_cases hcode : t.hasChar Marker.code = true
      · exact Or.inl ⟨[], t, lines, rfl, nofun, Or.inr ⟨hclose, hcode⟩⟩
      · rw [Bool.not_eq_true] at hcode
        have hcons : ∀ {body : List Text}, IsBody body → IsBody (t :: body) := fun hbody =>
          List.forall_mem_cons.mpr ⟨⟨hclose, hcode⟩, hbody⟩
        rcases ih with ⟨body, text, after, rfl, hbody, hend⟩ | hbody
        · exact Or.inl ⟨t :: body, text, after, rfl, hcons hbody, hend⟩
        · exact Or.inr (hcons hbody)

/-- However a file goes on after a preamble, it is read in one of the six ways. -/
theorem Preamble.exists_reading {before : List Text} {macros : List Macro}
    (h : Preamble before macros) (rest : List Text) : ∃ r, Reading (before ++ rest) r := by
  -- each step makes the preamble longer by an ignored line or by a whole definition
  induction hn : rest.length using Nat.strong_induction_on generalizing before macros rest with
  | _ n ih =>
    cases rest with
    | nil => exact ⟨_, .noCode (by rwa [List.append_nil])⟩
    | cons text rest =>
      rw [List.length_cons] at hn
      by_cases hopen : text.hasChar Marker.openMacro = true
      · cases hname : macroName? text with
        | none => exact ⟨_, .nameless rfl h hopen hname⟩
        | some name =>
          by_cases hnew : name ∈ macros.map Macro.name
          · exact ⟨_, .duplicate rfl h hopen hname hnew⟩
          · rcases exists_end_of_body rest with ⟨body, line, after, rfl, hbody, hend⟩ | hbody
            · rcases hend with hclose | ⟨hclose, hcode⟩
              · have hdef : (⟨name, before.length + 1, body⟩ : Macro).DefinedBy text line :=
                  ⟨hopen, hname, hbody, hclose⟩
                rw [List.length_append, List.length_cons] at hn
                have hrest := ih after.length (by omega) (h.definition hdef rfl hnew) after rfl
                simpa using hrest
              · exact ⟨_, .openAtCode rfl h hopen hname hnew hbody hclose hcode⟩
            · exact ⟨_, .neverClosed rfl h hopen hname hnew hbody⟩
      · rw [Bool.not_eq_true] at hopen
        by_cases hcode : text.hasChar Marker.code = true
        · exact ⟨_, .parts rfl h hopen hcode⟩
        · rw [Bool.not_eq_true] at hcode
          have hrest := ih rest.length (by omega) (h.ignored hopen hcode) rest rfl
          rwa [List.append_assoc] at hrest

end Sections

/-- A source file is read as its layout says, and in no other way. -/
theorem sections_eq_iff {src : Text} {r : Except Diagnostic Sections} :
    sections src = r ↔ Sections.Reading src.lines r := by
  constructor
  · intro h
    obtain ⟨r', hr'⟩ := Sections.Preamble.nil.exists_reading src.lines
    have hsame : r' = r := hr'.scan_eq.symm.trans h
    exact hsame ▸ hr'
  · exact Sections.Reading.scan_eq

end Glyph8
