import Glyph8.Proofs.Assembly.Composition
import Glyph8.Proofs.Assembly.MacroUse

/-!
# Comments and blank lines

A comment begins at a word that begins with the comment sign and goes to the end of the line. It has
no tokens, whatever it says: names of macros, markers, labels or bytes that are no characters
(`tokens_append_comment`). So a comment at the end of a line changes nothing that the assembler
looks at.

A line that is only a comment, or blank, has no tokens at all. Such a line uses no macro, defines no
label and is no instruction, so it can be left out before macros are expanded
(`expand_insert_blank`). But it counts as a line, and all lines below it get other numbers. Words
and errors show these numbers, so the result is not the same but the same up to a renumbering: from
the place of the new line on, numbers go up by one (`pushedDown`).

The argument is in two parts. On lines, `assemble_insert_blank` compares the code with and without
the line, by the relation of lines with equal tokens and related numbers. On texts, the lines of the
source have to be found again after something was put in. `sections_of_same_top` does this once for
all edits: texts with the same lines up to the code marker have the same macros, and code that
begins with the same lines.

The main result is `comments_inert`.
-/

namespace Glyph8

/-! ## Comments at the ends of lines -/

/-- The first word after the comment sign begins a comment, even if nothing follows the sign. -/
theorem exists_words_comment (more : Text) :
    ∃ word rest, Text.words (Line.commentMark :: more) = word :: rest ∧
      Line.isComment word = true := by
  have hrunes : Text.runes (Line.commentMark :: more) = .scalar '#' :: more.runes :=
    Text.runes_append_ascii (by decide) [] more
  obtain ⟨first, others, hsplit⟩ :=
    List.exists_cons_of_ne_nil (List.splitOnP_ne_nil Rune.isBlank more.runes)
  refine ⟨Rune.encode (.scalar '#' :: first),
    (others.filter (!·.isEmpty)).map Rune.encode, ?_, rfl⟩
  unfold Text.words
  rw [hrunes, List.splitOnP_cons_eq_if_modifyHead, if_neg (by decide), hsplit,
    List.modifyHead_cons, List.filter_cons_of_pos rfl, List.map_cons]

/-- A comment at the end of a line adds no token to the line. -/
theorem tokens_append_comment (line more : Text) :
    Line.tokens (line ++ (utf8 " #" ++ more)) = Line.tokens line := by
  obtain ⟨word, rest, hwords, hword⟩ := exists_words_comment more
  have hline : Text.words (line ++ (utf8 " #" ++ more)) = line.words ++ word :: rest := by
    rw [← hwords]
    exact Text.words_append_ascii (b := Text.space) (by decide) (by decide) line _
  unfold Line.tokens
  rw [hline, List.takeWhile_append, List.takeWhile_cons_of_neg (by rw [hword]; decide),
    List.append_nil]
  split
  · next hlength => exact ((List.takeWhile_prefix _).eq_of_length hlength).symm
  · rfl

/-! ## Lines without tokens -/

section

variable {blank : Line}

theorem statement_of_no_tokens (h : Line.tokens blank.text = []) : blank.statement = .blank := by
  unfold Line.statement
  rw [h]
  rfl

/-- Neither pass sees a line without tokens. -/
theorem assembleCode_insert_blank (h : Line.tokens blank.text = []) (a b : List Line) :
    assembleCode (a ++ blank :: b) = assembleCode (a ++ b) := by
  have hstatement := statement_of_no_tokens h
  have hsurvey : survey (a ++ blank :: b) = survey (a ++ b) := by
    unfold survey
    rw [List.foldlM_append, List.foldlM_append]
    refine congrArg _ (funext fun s => ?_)
    have hvisit : s.visit blank = .ok s := by
      unfold Survey.visit
      rw [hstatement]
    rw [List.foldlM_cons, hvisit, ok_bind]
  have hlines : instructionLines (a ++ blank :: b) = instructionLines (a ++ b) := by
    have hblank : InstructionLine.ofLine? blank = none := by
      unfold InstructionLine.ofLine?
      rw [hstatement]
    unfold instructionLines
    rw [List.filterMap_append, List.filterMap_cons_none hblank, List.filterMap_append]
  unfold assembleCode encodeAll
  rw [hsurvey, hlines]

/-- No macro is used on a line without tokens. -/
theorem expand_cons_blank (h : Line.tokens blank.text = []) (macros : List Macro) (b : List Line) :
    expand macros (blank :: b) = do
      let y ← expand macros b
      return blank :: y := by
  have hblank : expand macros [blank] = .ok [blank] := by
    refine expand_of_not_invokes ?_
    intro l hl m _ hinvokes
    rw [List.mem_singleton.mp hl] at hinvokes
    exact hinvokes.1 h
  rw [← List.singleton_append, expand_code_append, hblank]
  rfl

/-- A line without tokens can be left out before macros are expanded. -/
theorem expand_insert_blank (h : Line.tokens blank.text = []) (macros : List Macro)
    (a b : List Line) :
    (expand macros (a ++ blank :: b) >>= assembleCode) =
      (expand macros (a ++ b) >>= assembleCode) := by
  rw [expand_code_append, expand_code_append, expand_cons_blank h]
  cases expand macros a with
  | error d => rfl
  | ok upper =>
    cases expand macros b with
    | error d => rfl
    | ok lower => exact assembleCode_insert_blank h upper lower

end

/-! ## Numbers of the lines below -/

/-- The number that a line gets when a line is put in as line `n`. -/
def pushedDown (n : Nat) (num : Int) : Int := if num < n then num else num + 1

section

variable {macros : List Macro} {first : Nat} {upper upper' lower : List Text}

/-- Lines with the same tokens, numbered from another line on, are alike for any map that moves
their numbers by so much. -/
theorem numbered_like_of {f : Int → Int}
    (h : List.Forall₂ (fun s t => Line.tokens s = Line.tokens t) upper upper') (shift : Nat)
    (hf : ∀ x : Int, first ≤ x → x < first + upper.length → f x = x + shift) :
    List.Forall₂ (Line.Like fun x y => y = f x) (numbered first upper)
      (numbered (first + shift) upper') := by
  have hnum : ∀ l ∈ numbered first upper, f l.num = l.num + shift := by
    intro l hl
    obtain ⟨hlo, hhi⟩ := num_of_mem_numbered hl
    exact hf l.num hlo hhi
  refine ((List.forall₂_and_left _ _).mpr ⟨hnum, numbered_like h first shift⟩).imp ?_
  rintro k l ⟨hk, hkl⟩
  exact ⟨hkl.num.trans hk.symm, hkl.tokens⟩

/-- Code with a line without tokens put in, and the lines above it replaced by lines with the same
tokens, is assembled to the same with other line numbers. -/
theorem assemble_insert_blank {t : Text} (ht : Line.tokens t = []) {f : Int → Int}
    (h : List.Forall₂ (fun s t => Line.tokens s = Line.tokens t) upper upper')
    (hupper : ∀ x : Int, x < first + upper.length → f x = x)
    (hlower : ∀ x : Int, first + upper.length ≤ x → x < first + upper.length + lower.length →
      f x = x + 1) :
    (expand macros (numbered first (upper' ++ t :: lower)) >>= assembleCode) =
      renumber f (expand macros (numbered first (upper ++ lower)) >>= assembleCode) := by
  have hlike : List.Forall₂ (Line.Like fun x y => y = f x) (numbered first (upper ++ lower))
      (numbered first upper' ++ numbered (first + upper.length + 1) lower) := by
    rw [numbered_append]
    refine List.rel_append ?_ ?_
    · refine numbered_like_of h 0 ?_
      intro x _ hx
      rw [hupper x hx, Int.natCast_zero, Int.add_zero]
    · refine numbered_like_of (List.forall₂_same.mpr fun _ _ => rfl) 1 ?_
      intro x hlo hhi
      push_cast at hlo hhi
      exact hlower x hlo hhi
  -- the new line stands between the two parts, and the lower one is pushed down
  have hsplit : numbered first (upper' ++ t :: lower) = numbered first upper' ++
      ⟨(first + upper.length : Nat), t⟩ :: numbered (first + upper.length + 1) lower := by
    rw [numbered_append, ← h.length_eq]
    rfl
  rw [hsplit, expand_insert_blank ht]
  have hexpand := expand_like (forall₂_macro_like_refl macros) hlike
  exact (hexpand.bind fun _ _ hcode => assembleCode_like hcode).eq_renumber

/-- Below the last line no number changes. -/
theorem assemble_append_blank {t : Text} (ht : Line.tokens t = [])
    (h : List.Forall₂ (fun s t => Line.tokens s = Line.tokens t) upper upper') :
    (expand macros (numbered first (upper' ++ [t])) >>= assembleCode) =
      (expand macros (numbered first upper) >>= assembleCode) := by
  have hnone : ∀ x : Int, first + upper.length ≤ x →
      x < first + upper.length + (([] : List Text).length : Int) → id x = x + 1 := by
    intro x hlo hhi
    rw [List.length_nil, Int.natCast_zero, Int.add_zero] at hhi
    exact absurd hhi (Int.not_lt.mpr hlo)
  rw [assemble_insert_blank (f := id) ht h (fun _ _ => rfl) hnone, renumber_id, List.append_nil]

/-- Code whose lines have the same tokens, with the same numbers, is assembled to the same. -/
theorem assemble_same_tokens
    (h : List.Forall₂ (fun s t => Line.tokens s = Line.tokens t) upper upper') :
    (expand macros (numbered first upper') >>= assembleCode) =
      (expand macros (numbered first upper) >>= assembleCode) := by
  have hlike : List.Forall₂ (Line.Like fun x y => y = id x) (numbered first upper)
      (numbered first upper') := by
    refine numbered_like_of h 0 ?_
    intro x _ _
    rw [id, Int.natCast_zero, Int.add_zero]
  have hexpand := expand_like (forall₂_macro_like_refl macros) hlike
  rw [(hexpand.bind fun _ _ hcode => assembleCode_like hcode).eq_renumber, renumber_id]

end

/-! ## Source texts with the same beginning -/

/-- The lines of code are lines of the text. -/
theorem num_le_of_mem_code {src : Text} {parts : Sections} (h : sections src = .ok parts) {l : Line}
    (hl : l ∈ parts.code) : l.num ≤ src.lines.length := by
  obtain ⟨before, marker, after, hlines, _, hcode⟩ := sections_eq_ok_iff.mp h
  rw [hcode] at hl
  exact (num_of_mem_code hlines hl).2

/-- Two source texts that have the same lines up to the code marker, and on to some line of code,
have the same macros, and code that begins with the same lines. -/
theorem sections_of_same_top {src src' : Text} {parts : Sections} (h : sections src = .ok parts)
    {top rest rest' : List Text} (hlines : src.lines = top ++ rest)
    (hlines' : src'.lines = top ++ rest') {l : Line} (hl : l ∈ parts.code)
    (hnum : l.num ≤ top.length + 1) :
    ∃ first upper, first + upper.length = top.length + 1 ∧
      parts.code = numbered first (upper ++ rest) ∧
      sections src' = .ok ⟨parts.macros, numbered first (upper ++ rest')⟩ := by
  obtain ⟨before, marker, after, hsrc, hbegins, hcode⟩ := sections_eq_ok_iff.mp h
  rw [hcode] at hl
  have hlow := (num_of_mem_numbered hl).1
  -- the line of code comes after the marker, so the marker is in the common part
  have hmarker : before.length + 1 ≤ top.length := by
    push_cast at hlow
    omega
  obtain ⟨upper, rfl⟩ : ∃ upper, top = before ++ marker :: upper := by
    have hbefore : before ++ [marker] <+: src.lines :=
      ⟨after, by rw [hsrc, List.append_assoc]; rfl⟩
    have htop : top <+: src.lines := ⟨rest, hlines.symm⟩
    obtain ⟨upper, rfl⟩ := List.prefix_of_prefix_length_le hbefore htop
      (by rw [List.length_append]; exact hmarker)
    exact ⟨upper, by rw [List.append_assoc]; rfl⟩
  have hafter : after = upper ++ rest := by
    rw [hlines, List.append_assoc] at hsrc
    exact (List.cons.inj (List.append_cancel_left hsrc)).2.symm
  refine ⟨before.length + 2, upper, ?_, by rw [hcode, hafter], ?_⟩
  · rw [List.length_append, List.length_cons]
    omega
  · refine sections_eq_ok_iff.mpr ⟨before, marker, upper ++ rest', ?_, hbegins, rfl⟩
    rw [hlines', List.append_assoc]
    rfl

/-! ## Ends of lines -/

namespace Text

/-- What follows the end of a line: nothing, or a line ending and other lines. -/
inductive AtLineEnd : Text → Prop
  | last : AtLineEnd []
  | bare (rest : Text) : AtLineEnd (newline :: rest)
  | returned (rest : Text) : AtLineEnd (carriageReturn :: newline :: rest)

/-- What is put in at the end of a line changes the tokens of that line only. -/
theorem exists_lines_at_end (a : Text) {b : Text} (hb : AtLineEnd b) :
    ∃ before last lower, a.lines = before ++ [last] ∧
      ∀ more, newline ∉ more → ∃ l, lines (a ++ (more ++ b)) = before ++ l :: lower ∧
        Line.tokens l = Line.tokens (last ++ more) := by
  obtain ⟨before, last, hlines, happend⟩ := exists_lines_append_line a
  -- where a newline follows, the line that it ends is the last one before it
  have hnewline : ∀ (more rest : Text), newline ∉ more →
      lines (a ++ (more ++ newline :: rest)) =
        before ++ stripReturn (last ++ more) :: rest.lines := by
    intro more rest hmore
    obtain ⟨before', last', hlines', hjoin⟩ := exists_lines_append (a ++ more)
    rw [happend more hmore] at hlines'
    obtain ⟨rfl, rfl⟩ := List.append_singleton_inj.mp hlines'
    rw [← List.append_assoc]
    exact hjoin rest
  cases hb with
  | last =>
    refine ⟨before, last, [], hlines, ?_⟩
    intro more hmore
    exact ⟨last ++ more, by rw [List.append_nil, happend more hmore], rfl⟩
  | bare rest =>
    refine ⟨before, last, rest.lines, hlines, ?_⟩
    intro more hmore
    exact ⟨_, hnewline more rest hmore, Line.tokens_stripReturn _⟩
  | returned rest =>
    refine ⟨before, last, rest.lines, hlines, ?_⟩
    intro more hmore
    have hreturn : newline ∉ more ++ [carriageReturn] := by
      rw [List.mem_append, not_or]
      exact ⟨hmore, by decide⟩
    have h := hnewline (more ++ [carriageReturn]) rest hreturn
    rw [← List.append_assoc last, stripReturn_concat, List.append_assoc more] at h
    exact ⟨last ++ more, h, rfl⟩

end Text

/-! ## Comments in source texts -/

section

variable {src : Text} {parts : Sections}

/-- A line without tokens between two lines, the lower one a line of code. -/
theorem assemble_blank_between (h : sections src = .ok parts) {a b t : Text}
    (hsrc : src = a ++ Text.newline :: b) {l : Line} (hl : l ∈ parts.code)
    (hnum : l.num = a.lines.length + 1) (hnewline : Text.newline ∉ t) (ht : Line.tokens t = []) :
    assemble (a ++ Text.newline :: (t ++ Text.newline :: b)) =
      renumber (pushedDown (a.lines.length + 1)) (assemble src) := by
  obtain ⟨before, last, hlines, hjoin⟩ := Text.exists_lines_append a
  have hlength : a.lines.length = (before ++ [Text.stripReturn last]).length := by
    rw [hlines, List.length_append, List.length_append]
    rfl
  have hold : src.lines = (before ++ [Text.stripReturn last]) ++ b.lines := by
    rw [hsrc, hjoin, List.append_assoc]
    rfl
  have hnew : (a ++ Text.newline :: (t ++ Text.newline :: b)).lines =
      (before ++ [Text.stripReturn last]) ++ Text.stripReturn t :: b.lines := by
    rw [hjoin, Text.lines_append_newline hnewline, List.append_assoc]
    rfl
  -- the lines above are the same in both texts, so the code begins at the same place
  obtain ⟨first, upper, hfirst, hcode, hsections⟩ :=
    sections_of_same_top h hold hnew hl (Int.le_of_eq (by rw [hnum, hlength]))
  rw [assemble_of_sections h, assemble_of_sections hsections, hcode, hlength, ← hfirst]
  refine assemble_insert_blank (by rw [Line.tokens_stripReturn, ht])
    (List.forall₂_same.mpr fun _ _ => rfl) ?_ ?_
  · intro x hx
    exact if_pos (by push_cast; exact hx)
  · intro x hx _
    exact if_neg (by push_cast; omega)

/-- A line without tokens at the end of the text. -/
theorem assemble_blank_below (h : sections src = .ok parts) {t : Text}
    (hnewline : Text.newline ∉ t) (ht : Line.tokens t = []) :
    assemble (src ++ Text.newline :: t) = assemble src := by
  obtain ⟨macros, code⟩ := parts
  rw [assemble_of_sections h]
  cases code with
  | nil =>
    -- the line of the marker is the last one, and the new line is all the code
    have hsections := sections_below h t
    rw [Text.lines_of_not_mem hnewline] at hsections
    rw [assemble_of_sections hsections]
    have hcode : List.Forall₂ (fun s t => Line.tokens s = Line.tokens t) [] [] := .nil
    exact (assemble_append_blank ht hcode :)
  | cons l code =>
    -- the last line is a line of code, and may lose a carriage return
    obtain ⟨bef, last, hlines, hjoin⟩ := Text.exists_lines_append src
    have hnew := hjoin t
    rw [Text.lines_of_not_mem hnewline] at hnew
    have hl : l ∈ l :: code := List.mem_cons_self
    have hnum := num_le_of_mem_code h hl
    rw [hlines, List.length_append] at hnum
    obtain ⟨first, upper, _, hcode, hsections⟩ := sections_of_same_top h hlines hnew hl hnum
    rw [assemble_of_sections hsections, hcode]
    show (expand macros (numbered first (upper ++ ([Text.stripReturn last] ++ [t]))) >>= _) = _
    rw [← List.append_assoc]
    refine assemble_append_blank ht (List.rel_append ?_ (.cons ?_ .nil))
    · exact List.forall₂_same.mpr fun _ _ => rfl
    · exact (Line.tokens_stripReturn last).symm

/-- A comment at the end of a line of code. -/
theorem assemble_comment (h : sections src = .ok parts) {a b comment : Text} (hsrc : src = a ++ b)
    (hb : Text.AtLineEnd b) {l : Line} (hl : l ∈ parts.code) (hnum : l.num = a.lines.length)
    (hcomment : Text.newline ∉ comment) :
    assemble (a ++ (utf8 " #" ++ comment ++ b)) = assemble src := by
  obtain ⟨before, last, lower, hlines, hat⟩ := Text.exists_lines_at_end a hb
  have hmore : Text.newline ∉ utf8 " #" ++ comment := by
    rw [List.mem_append, not_or]
    exact ⟨by decide, hcomment⟩
  -- the line that the comment is put on, without it and with it
  obtain ⟨old, hold, holdTokens⟩ := hat [] List.not_mem_nil
  obtain ⟨new, hnew, hnewTokens⟩ := hat _ hmore
  rw [List.nil_append, ← hsrc] at hold
  have hlength : a.lines.length = before.length + 1 := by
    rw [hlines, List.length_append]
    rfl
  obtain ⟨first, upper, _, hcode, hsections⟩ :=
    sections_of_same_top h hold hnew hl (by rw [hnum, hlength]; push_cast; omega)
  rw [assemble_of_sections h, assemble_of_sections hsections, hcode]
  have htokens : Line.tokens old = Line.tokens new := by
    rw [holdTokens, hnewTokens, List.append_nil, tokens_append_comment]
  refine assemble_same_tokens (List.rel_append ?_ (.cons htokens ?_))
  · exact List.forall₂_same.mpr fun _ _ => rfl
  · exact List.forall₂_same.mpr fun _ _ => rfl

end

/-- In a source text with a code marker, a line without tokens can be put in before any line of
code, and only line numbers change: those from its own number on go up by one, in the program or in
the error. It can also be put in below the last line, and nothing changes. Nor does a comment at the
end of a line of code change anything. -/
theorem comments_inert {src : Text} {parts : Sections} (h : sections src = .ok parts) :
    (∀ a b t : Text, src = a ++ Text.newline :: b →
      (∃ l ∈ parts.code, l.num = a.lines.length + 1) → Text.newline ∉ t → Line.tokens t = [] →
        assemble (a ++ Text.newline :: (t ++ Text.newline :: b)) =
          renumber (pushedDown (a.lines.length + 1)) (assemble src)) ∧
    (∀ t : Text, Text.newline ∉ t → Line.tokens t = [] →
      assemble (src ++ Text.newline :: t) = assemble src) ∧
    ∀ a b comment : Text, src = a ++ b → Text.AtLineEnd b →
      (∃ l ∈ parts.code, l.num = a.lines.length) → Text.newline ∉ comment →
        assemble (a ++ (utf8 " #" ++ comment ++ b)) = assemble src := by
  refine ⟨?_, ?_, ?_⟩
  · rintro a b t hsrc ⟨l, hl, hnum⟩ hnewline ht
    exact assemble_blank_between h hsrc hl hnum hnewline ht
  · intro t hnewline ht
    exact assemble_blank_below h hnewline ht
  · rintro a b comment hsrc hb ⟨l, hl, hnum⟩ hcomment
    exact assemble_comment h hsrc hb hl hnum hcomment

/-- A macro that jumps, the code marker and a label. -/
def jumpingTop : Text := utf8 "🔓 go\n♿ _\n🔒\n💬\ntop:"

/-- A use of the macro, and a jump to a label that is not defined. -/
def jumpingRest : Text := utf8 "go top\ngo away"

/-- A comment full of things that are none in it. -/
def noisyComment : Text := utf8 "# go 🔓 💬 top: " ++ [0xE2, 0xFF]

/-- The error moves down with its line, and only if the comment is a line of its own above it. -/
theorem comments_inert_noisy :
    (∃ parts, sections (jumpingTop ++ Text.newline :: jumpingRest) = .ok parts ∧
      ∃ l ∈ parts.code, l.num = 6) ∧
    Line.tokens noisyComment = [] ∧
    assemble (jumpingTop ++ Text.newline :: jumpingRest) =
      .error ⟨7, .undefinedLabel (utf8 "away")⟩ ∧
    assemble (jumpingTop ++ Text.newline :: (noisyComment ++ Text.newline :: jumpingRest)) =
      .error ⟨8, .undefinedLabel (utf8 "away")⟩ ∧
    assemble ((jumpingTop ++ Text.newline :: jumpingRest) ++ Text.newline :: noisyComment) =
      .error ⟨7, .undefinedLabel (utf8 "away")⟩ ∧
    assemble (jumpingTop ++ (utf8 " #" ++ noisyComment ++ Text.newline :: jumpingRest)) =
      .error ⟨7, .undefinedLabel (utf8 "away")⟩ := by
  have hsections : sections (jumpingTop ++ Text.newline :: jumpingRest) =
      .ok ⟨[⟨utf8 "go", 1, [utf8 "♿ _"]⟩],
        [⟨5, utf8 "top:"⟩, ⟨6, utf8 "go top"⟩, ⟨7, utf8 "go away"⟩]⟩ := by decide +kernel
  have hresult : assemble (jumpingTop ++ Text.newline :: jumpingRest) =
      .error ⟨7, .undefinedLabel (utf8 "away")⟩ := by decide +kernel
  have htop : jumpingTop.lines.length = 5 := by decide +kernel
  have hnewline : Text.newline ∉ noisyComment := by decide +kernel
  have htokens : Line.tokens noisyComment = [] := by decide +kernel
  obtain ⟨hbetween, hbelow, hcomment⟩ := comments_inert hsections
  refine ⟨⟨_, hsections, ⟨6, utf8 "go top"⟩, by simp, rfl⟩, htokens, hresult, ?_, ?_, ?_⟩
  · rw [hbetween _ _ _ rfl ⟨⟨6, utf8 "go top"⟩, by simp, by rw [htop]; rfl⟩ hnewline htokens,
      hresult,
      htop]
    rfl
  · rw [hbelow _ hnewline htokens, hresult]
  · rw [hcomment _ _ _ rfl (.bare _) ⟨⟨5, utf8 "top:"⟩, by simp, by rw [htop]; rfl⟩ hnewline,
      hresult]

end Glyph8
