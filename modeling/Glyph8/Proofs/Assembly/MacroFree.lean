import Glyph8.Proofs.Assembly.Renumbering
import Glyph8.Proofs.Listing.Reassembly

/-!
# Sources without macros

Expanded code can be written out as a source text of its own: the code marker, and below it the
lines. That text has no macros, and it is assembled as the source text is (`assemble_macroFree`): to
the same words and symbols, or to the same kind of error with the same message.

Text that a macro puts into a line may look like anything: a comment, a label, a marker or a macro's
name. None of that matters when the lines are read again. They stand below the code marker, where no
marker is looked for, and the only thing that is read from them is their tokens. What could go wrong
is that lines fall apart or change their tokens. They have no newline, and the carriage returns that
they may lose at their ends are in no token (`tokens_endLines`).

Line numbers do change: the lines of a macro's body all had the number of its use, and now have
numbers of their own. So both are compared with the relation of lines that read alike, in which any
two numbers are related (`assemble_macroFree_like`).
-/

namespace Glyph8

/-- The source text of code: the code marker and the lines of the code below it. -/
def macroFree (code : List Line) : Text :=
  Text.joinWith Text.newline (Text.ofChars [Marker.code] :: code.map Line.text)

/-! ## Reading the text again -/

/-- Only carriage returns at the ends of lines are lost, and they are in no token. -/
theorem tokens_endLines : ∀ ls : List Text,
    List.Forall₂ (fun s t => Line.tokens s = Line.tokens t) ls (Text.endLines ls)
  | [] => .nil
  | [_] => .cons rfl .nil
  | l :: next :: ls => .cons (Line.tokens_stripReturn l).symm (tokens_endLines (next :: ls))

/-- Code and texts with its tokens read alike, whatever numbers the texts get. -/
theorem like_numbered {code : List Line} {texts : List Text}
    (h : List.Forall₂ (fun l t => Line.tokens l.text = Line.tokens t) code texts) :
    ∀ first : Nat, List.Forall₂ (Line.Like fun _ _ => True) code (numbered first texts) := by
  induction h with
  | nil => exact fun _ => .nil
  | cons hl _ ih => exact fun first => .cons ⟨trivial, hl⟩ (ih (first + 1))

/-- The lines of the written text are the code marker and the lines of the code. -/
theorem lines_macroFree {code : List Line} (h : ∀ l ∈ code, Text.newline ∉ l.text) :
    (macroFree code).lines =
      Text.ofChars [Marker.code] :: Text.endLines (code.map Line.text) := by
  have hpieces : ∀ t ∈ Text.ofChars [Marker.code] :: code.map Line.text, Text.newline ∉ t := by
    intro t ht
    rcases List.mem_cons.mp ht with rfl | ht
    · decide
    · obtain ⟨l, hl, rfl⟩ := List.mem_map.mp ht
      exact h l hl
  unfold macroFree Text.lines Text.joinWith
  rw [List.splitOn_intercalate Text.newline hpieces (List.cons_ne_nil _ _)]
  -- the line of the marker does not end in a carriage return
  cases code with
  | nil => rfl
  | cons l code => rfl

/-- The written text has no macros, and its code begins on the second line. -/
theorem sections_macroFree {code : List Line} (h : ∀ l ∈ code, Text.newline ∉ l.text) :
    sections (macroFree code) = .ok ⟨[], numbered 2 (Text.endLines (code.map Line.text))⟩ := by
  unfold sections
  rw [lines_macroFree h, Sections.scan, if_neg (by decide), if_pos (by decide)]

/-- Code and what is read from its text are assembled alike. -/
theorem assemble_macroFree_like {code : List Line} (h : ∀ l ∈ code, Text.newline ∉ l.text) :
    EndsAlike (Diagnostic.Like fun _ _ => True) (Program.Like fun _ _ => True)
      (assembleCode code) (assemble (macroFree code)) := by
  have hread : assemble (macroFree code) =
      assembleCode (numbered 2 (Text.endLines (code.map Line.text))) := by
    unfold assemble expandedCode
    rw [sections_macroFree h, ok_bind, expand_nil, ok_bind]
  rw [hread]
  have htokens := List.forall₂_map_left_iff.mp (tokens_endLines (code.map Line.text))
  exact assembleCode_like (like_numbered htokens 2)

/-- If the sections of a source text are found and its macros can be expanded, the text of the
expanded code has no macros, and it is assembled exactly if the source text is: to the same words
and symbols. Otherwise both fail in the same way, though the line may be another. -/
theorem assemble_macroFree {src : Text} {code : List Line} (h : expandedCode src = .ok code) :
    (∃ lines, sections (macroFree code) = .ok ⟨[], lines⟩) ∧
    ((∃ p, assemble src = .ok p) ↔ ∃ q, assemble (macroFree code) = .ok q) ∧
    (∀ p q, assemble src = .ok p → assemble (macroFree code) = .ok q →
      q.words = p.words ∧ q.symbols = p.symbols) ∧
    ∀ d e, assemble src = .error d → assemble (macroFree code) = .error e →
      e.kind = d.kind ∧ e.fault.message = d.fault.message := by
  have hnewline : ∀ l ∈ code, Text.newline ∉ l.text :=
    fun l hl => newline_not_mem_expandedCode h hl
  have hsrc : assemble src = assembleCode code := by
    unfold assemble
    rw [h, ok_bind]
  have hlike := assemble_macroFree_like hnewline
  rw [← hsrc] at hlike
  refine ⟨⟨_, sections_macroFree hnewline⟩, ?_⟩
  -- both end alike, so it is enough to look at two ends that are alike
  generalize assemble src = x, assemble (macroFree code) = y at hlike
  cases hlike with
  | ok hpq =>
    refine ⟨⟨fun _ => ⟨_, rfl⟩, fun _ => ⟨_, rfl⟩⟩, ?_, ?_⟩
    · intro p q hp hq
      rw [← Except.ok.inj hp, ← Except.ok.inj hq]
      exact ⟨hpq.words, hpq.symbols.symm⟩
    · intro d e hd
      cases hd
  | error hde =>
    refine ⟨⟨?_, ?_⟩, ?_, ?_⟩
    · rintro ⟨p, hp⟩
      cases hp
    · rintro ⟨q, hq⟩
      cases hq
    · intro p q hp
      cases hp
    · intro d e hd he
      rw [← Except.error.inj hd, ← Except.error.inj he]
      unfold Diagnostic.kind
      rw [hde.fault]
      exact ⟨rfl, rfl⟩

/-- A jump and its label, made from an argument that has a marker and the macro's own name in it. -/
def splicedSource : Text :=
  utf8 "🔓 go\n♿ _ # _\r\n_:\n🔒\n💬\ngo 🔓go"

/-- The same jump twice, so that its label is repeated. -/
def splicedTwice : Text := splicedSource ++ utf8 "\ngo 🔓go"

/-- The spliced text is assembled from its lines as from the macro; with its label twice, both fail
for that. -/
theorem assemble_macroFree_spliced :
    (∃ code p q, expandedCode splicedSource = .ok code ∧ assemble splicedSource = .ok p ∧
      assemble (macroFree code) = .ok q ∧ p.words = [0xC1] ∧ q.words = p.words ∧
        q.symbols = p.symbols) ∧
    ∃ code d e, expandedCode splicedTwice = .ok code ∧ assemble splicedTwice = .error d ∧
      assemble (macroFree code) = .error e ∧ d = ⟨7, .duplicateLabel (utf8 "🔓go")⟩ ∧
        e.kind = d.kind ∧ e.fault.message = d.fault.message := by
  constructor
  · have hwords : (assemble splicedSource).map Program.words = .ok [0xC1] := by decide +kernel
    obtain ⟨p, hp, hwords⟩ := map_eq_ok_iff.mp hwords
    obtain ⟨code, _, hcode, _⟩ := assemble_eq_ok_iff.mp hp
    obtain ⟨_, hsucceed, hsame, _⟩ := assemble_macroFree hcode
    obtain ⟨q, hq⟩ := hsucceed.mp ⟨p, hp⟩
    obtain ⟨hqwords, hqsymbols⟩ := hsame p q hp hq
    exact ⟨code, p, q, hcode, hp, hq, hwords, hqwords, hqsymbols⟩
  · have hlength : (expandedCode splicedTwice).map List.length = .ok 4 := by decide +kernel
    obtain ⟨code, hcode, _⟩ := map_eq_ok_iff.mp hlength
    have hd : assemble splicedTwice = .error ⟨7, .duplicateLabel (utf8 "🔓go")⟩ := by
      decide +kernel
    obtain ⟨_, hsucceed, _, hsame⟩ := assemble_macroFree hcode
    cases he : assemble (macroFree code) with
    | ok q =>
      obtain ⟨p, hp⟩ := hsucceed.mpr ⟨q, he⟩
      rw [hd] at hp
      cases hp
    | error e =>
      obtain ⟨hkind, hmessage⟩ := hsame _ e hd he
      exact ⟨code, _, e, hcode, hd, he, rfl, hkind, hmessage⟩

end Glyph8
