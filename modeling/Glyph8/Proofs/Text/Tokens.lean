import Glyph8.Proofs.Text.Endings

/-!
# Tokens of any bytes

Bytes need not be characters, and what a byte is read as depends on those after it: a lead byte
waits for its continuation. So a piece of a text, read on its own, could in principle be read
differently than inside the text, and a word could fall apart when it is split again. This module
shows that this does not happen.

`lead_cases` says what a rune is made of, one case for each number of bytes and one for a byte that
is on its own. The bytes that a rune takes are the bytes it is written with (`bytes_ofLead`), hence
the runes of a text, written back, are the text (`encode_runes`). And a rune that ends within a
piece does not depend on what follows the piece (`ofLead_of_append`), hence a run of runes is read
the same on its own as in the text it comes from (`runes_of_append`).

The rest draws the conclusions. A word has no blank when it is looked at again
(`solid_of_mem_words`), a text without a blank is one word (`words_of_solid`), and a character that
is no blank is in some word (`exists_word_of_hasChar`). `CanBeToken` collects what a token must be;
the tokens of a line made of such tokens are these tokens (`tokens_spaced_tokens`), and all tokens
of a line are of this kind (`canBeToken_of_mem_tokens`).

A label is a token with a colon at its end. What it names can be a token itself, which is what a
jump to it needs.
-/

namespace Glyph8

namespace Rune

/-! ## One rune -/

/-- What a rune that begins with `lead` is made of: one, two, three or four bytes that are a
character, or the byte alone. -/
inductive Lead (lead : UInt8) : Text → Prop
  | one (rest : Text) (h : lead.toNat < 0x80) : Lead lead rest
  | two (a : UInt8) (rest : Text) (hlo : 0xC2 ≤ lead.toNat) (hhi : lead.toNat < 0xE0)
      (ha : isContinuation a = true) : Lead lead (a :: rest)
  | three (a b : UInt8) (rest : Text) (hlo : 0xE0 ≤ lead.toNat) (hhi : lead.toNat < 0xF0)
      (ha : isSecond lead a = true) (hb : isContinuation b = true) : Lead lead (a :: b :: rest)
  | four (a b c : UInt8) (rest : Text) (hlo : 0xF0 ≤ lead.toNat) (hhi : lead.toNat < 0xF5)
      (ha : isSecond lead a = true) (hb : isContinuation b = true)
      (hc : isContinuation c = true) : Lead lead (a :: b :: c :: rest)
  | alone (rest : Text) (h : ofLead lead rest = (stray lead, 0)) : Lead lead rest

/-- Every byte begins a rune in one of these ways. -/
theorem lead_cases (lead : UInt8) (rest : Text) : Lead lead rest := by
  by_cases h1 : lead < 0x80
  · exact .one rest (UInt8.lt_iff_toNat_lt.mp h1)
  -- below 0xC2 a byte only continues a character, or would begin one in too long a spelling
  by_cases h2 : lead < 0xC2
  · exact .alone rest (by unfold ofLead; rw [if_neg h1, if_pos h2])
  have hlo : 0xC2 ≤ lead.toNat := Nat.le_of_not_lt fun h => h2 (UInt8.lt_iff_toNat_lt.mpr h)
  by_cases h3 : lead < 0xE0
  · have hhi : lead.toNat < 0xE0 := UInt8.lt_iff_toNat_lt.mp h3
    rcases rest with _ | ⟨a, rest⟩
    · exact .alone _ (by unfold ofLead; rw [if_neg h1, if_neg h2, if_pos h3])
    · by_cases ha : isContinuation a = true
      · exact .two a rest hlo hhi ha
      · refine .alone _ ?_
        unfold ofLead
        rw [if_neg h1, if_neg h2, if_pos h3]
        simp only [if_neg ha]
  have hlo : 0xE0 ≤ lead.toNat := Nat.le_of_not_lt fun h => h3 (UInt8.lt_iff_toNat_lt.mpr h)
  by_cases h4 : lead < 0xF0
  · have hhi : lead.toNat < 0xF0 := UInt8.lt_iff_toNat_lt.mp h4
    rcases rest with _ | ⟨a, _ | ⟨b, rest⟩⟩
    · exact .alone _ (by unfold ofLead; rw [if_neg h1, if_neg h2, if_neg h3, if_pos h4])
    · exact .alone _ (by unfold ofLead; rw [if_neg h1, if_neg h2, if_neg h3, if_pos h4])
    · by_cases hab : (isSecond lead a && isContinuation b) = true
      · obtain ⟨ha, hb⟩ := Bool.and_eq_true_iff.mp hab
        exact .three a b rest hlo hhi ha hb
      · refine .alone _ ?_
        unfold ofLead
        rw [if_neg h1, if_neg h2, if_neg h3, if_pos h4]
        simp only [if_neg hab]
  have hlo : 0xF0 ≤ lead.toNat := Nat.le_of_not_lt fun h => h4 (UInt8.lt_iff_toNat_lt.mpr h)
  by_cases h5 : lead < 0xF5
  · have hhi : lead.toNat < 0xF5 := UInt8.lt_iff_toNat_lt.mp h5
    rcases rest with _ | ⟨a, _ | ⟨b, _ | ⟨c, rest⟩⟩⟩
    · exact .alone _ (by unfold ofLead; rw [if_neg h1, if_neg h2, if_neg h3, if_neg h4, if_pos h5])
    · exact .alone _ (by unfold ofLead; rw [if_neg h1, if_neg h2, if_neg h3, if_neg h4, if_pos h5])
    · exact .alone _ (by unfold ofLead; rw [if_neg h1, if_neg h2, if_neg h3, if_neg h4, if_pos h5])
    · by_cases habc : (isSecond lead a && isContinuation b && isContinuation c) = true
      · obtain ⟨hab, hc⟩ := Bool.and_eq_true_iff.mp habc
        obtain ⟨ha, hb⟩ := Bool.and_eq_true_iff.mp hab
        exact .four a b c rest hlo hhi ha hb hc
      · refine .alone _ ?_
        unfold ofLead
        rw [if_neg h1, if_neg h2, if_neg h3, if_neg h4, if_pos h5]
        simp only [if_neg habc]
  · exact .alone _ (by unfold ofLead; rw [if_neg h1, if_neg h2, if_neg h3, if_neg h4, if_neg h5])

/-- The bytes that a rune takes are the bytes it is written with. -/
theorem bytes_ofLead (lead : UInt8) (rest : Text) :
    (ofLead lead rest).1.bytes = lead :: rest.take (ofLead lead rest).2 := by
  have hvalue : ∀ n : Nat, n.isValidChar → (Char.ofNat n).val.toNat = n := by
    intro n hn
    unfold Char.ofNat
    rw [dif_pos hn]
    rfl
  have hbyte : ∀ (n : Nat) (b : UInt8), n = b.toNat → UInt8.ofNat n = b := by
    intro n b hn
    rw [hn, UInt8.ofNat_toNat]
  -- in each case the number that the bytes make up is divided into the same bytes again
  cases lead_cases lead rest with
  | one rest h =>
    have hn := hvalue lead.toNat (by left; omega)
    rw [ofLead_one h]
    simp only [bytes, String.utf8EncodeChar, hn, List.take_zero]
    rw [if_pos (by omega), hbyte _ lead rfl]
  | two a rest hlo hhi ha =>
    have ha' := (isContinuation_iff a).mp ha
    have hn := hvalue ((lead.toNat - 0xC0) * 64 + payload a) (by unfold payload; left; omega)
    rw [ofLead_two hlo hhi ha]
    simp only [bytes, String.utf8EncodeChar, hn, List.take_succ_cons, List.take_zero]
    unfold payload
    rw [if_neg (by omega), if_pos (by omega), hbyte _ lead (by omega), hbyte _ a (by omega)]
  | three a b rest hlo hhi ha hb =>
    have ha' := (isSecond_iff lead a).mp ha
    have hb' := (isContinuation_iff b).mp hb
    have hn := hvalue (((lead.toNat - 0xE0) * 64 + payload a) * 64 + payload b)
      (by unfold payload Nat.isValidChar; omega)
    rw [ofLead_three hlo hhi ha hb]
    simp only [bytes, String.utf8EncodeChar, hn, List.take_succ_cons, List.take_zero]
    unfold payload
    rw [if_neg (by omega), if_neg (by omega), if_pos (by omega), hbyte _ lead (by omega),
      hbyte _ a (by omega), hbyte _ b (by omega)]
  | four a b c rest hlo hhi ha hb hc =>
    have ha' := (isSecond_iff lead a).mp ha
    have hb' := (isContinuation_iff b).mp hb
    have hc' := (isContinuation_iff c).mp hc
    have hn := hvalue ((((lead.toNat - 0xF0) * 64 + payload a) * 64 + payload b) * 64 + payload c)
      (by unfold payload Nat.isValidChar; omega)
    rw [ofLead_four hlo hhi ha hb hc]
    simp only [bytes, String.utf8EncodeChar, hn, List.take_succ_cons, List.take_zero]
    unfold payload
    rw [if_neg (by omega), if_neg (by omega), if_neg (by omega), hbyte _ lead (by omega),
      hbyte _ a (by omega), hbyte _ b (by omega), hbyte _ c (by omega)]
  | alone rest h =>
    rw [h]
    rfl

/-- A rune that ends within `t` does not depend on what follows `t`. -/
theorem ofLead_of_append {lead : UInt8} {t u : Text} (h : (ofLead lead (t ++ u)).2 ≤ t.length) :
    ofLead lead t = ofLead lead (t ++ u) := by
  -- a character that begins `t` is still there when `u` follows
  cases lead_cases lead t with
  | one _ hlead => rw [ofLead_one hlead, ofLead_one hlead]
  | two a rest hlo hhi ha =>
    rw [List.cons_append, ofLead_two hlo hhi ha, ofLead_two hlo hhi ha]
  | three a b rest hlo hhi ha hb =>
    rw [List.cons_append, List.cons_append, ofLead_three hlo hhi ha hb, ofLead_three hlo hhi ha hb]
  | four a b c rest hlo hhi ha hb hc =>
    rw [List.cons_append, List.cons_append, List.cons_append, ofLead_four hlo hhi ha hb hc,
      ofLead_four hlo hhi ha hb hc]
  | alone _ halone =>
    -- and one that `u` completes would not end within `t`
    generalize htu : t ++ u = whole at h ⊢
    cases lead_cases lead whole with
    | one _ hlead => rw [ofLead_one hlead, ofLead_one hlead]
    | two a rest hlo hhi ha =>
      rw [ofLead_two hlo hhi ha] at h
      obtain ⟨t₁, t, rfl⟩ := List.exists_cons_of_length_pos h
      obtain ⟨rfl, -⟩ := List.cons.inj htu
      rw [ofLead_two hlo hhi ha, ofLead_two hlo hhi ha]
    | three a b rest hlo hhi ha hb =>
      rw [ofLead_three hlo hhi ha hb] at h
      rcases t with _ | ⟨t₁, _ | ⟨t₂, t⟩⟩
      · cases h
      · exact absurd h (by simp)
      · obtain ⟨rfl, rfl, -⟩ := by simpa using htu
        rw [ofLead_three hlo hhi ha hb, ofLead_three hlo hhi ha hb]
    | four a b c rest hlo hhi ha hb hc =>
      rw [ofLead_four hlo hhi ha hb hc] at h
      rcases t with _ | ⟨t₁, _ | ⟨t₂, _ | ⟨t₃, t⟩⟩⟩
      · cases h
      · exact absurd h (by simp)
      · exact absurd h (by simp)
      · obtain ⟨rfl, rfl, rfl, -⟩ := by simpa using htu
        rw [ofLead_four hlo hhi ha hb hc, ofLead_four hlo hhi ha hb hc]
    | alone _ hwhole => rw [halone, hwhole]

/-! ## All runes of a text -/

theorem encode_append (rs ss : List Rune) : encode (rs ++ ss) = encode rs ++ encode ss :=
  List.flatMap_append

/-- Bytes that are skipped might as well not be there. -/
theorem decodeFrom_eq_runes_drop : ∀ (skip : Nat) (t : Text),
    decodeFrom skip t = Text.runes (t.drop skip) := by
  intro skip t
  induction t generalizing skip with
  | nil => rw [List.drop_nil]; cases skip <;> rfl
  | cons b t ih =>
    cases skip with
    | zero => rfl
    | succ skip => exact ih skip

end Rune

namespace Text

/-- The first rune of a text, and the runes after the bytes that it takes. -/
theorem runes_cons (lead : UInt8) (rest : Text) :
    runes (lead :: rest) =
      (Rune.ofLead lead rest).1 :: runes (rest.drop (Rune.ofLead lead rest).2) := by
  rw [← Rune.decodeFrom_eq_runes_drop]
  rfl

/-- The runes of a text, written back, are the text. -/
@[simp] theorem encode_runes (t : Text) : Rune.encode t.runes = t := by
  induction h : t.length using Nat.strong_induction_on generalizing t with
  | _ n ih =>
    cases t with
    | nil => rfl
    | cons lead rest =>
      have hrest : Rune.encode (runes (rest.drop (Rune.ofLead lead rest).2)) = _ :=
        ih _ (by rw [← h, List.length_drop, List.length_cons]; omega) _ rfl
      rw [runes_cons, Rune.encode, List.flatMap_cons, ← Rune.encode, hrest, Rune.bytes_ofLead,
        List.cons_append, List.take_append_drop]

/-- A run of the runes of a text is read in the same way on its own. -/
theorem runes_of_append {before after : List Rune} :
    ∀ {t : Text}, t.runes = before ++ after →
      (Rune.encode before).runes = before ∧ (Rune.encode after).runes = after := by
  induction before with
  | nil =>
    intro t h
    refine ⟨rfl, ?_⟩
    rw [← show t.runes = after from h, encode_runes]
  | cons r before ih =>
    intro t h
    cases t with
    | nil => cases h
    | cons lead rest =>
      rw [runes_cons, List.cons_append] at h
      obtain ⟨rfl, hrest⟩ := List.cons.inj h
      obtain ⟨hbefore, hafter⟩ := ih hrest
      refine ⟨?_, hafter⟩
      -- the first rune ends before the runes of `before` begin
      have htake : (rest.take (Rune.ofLead lead rest).2).length = (Rune.ofLead lead rest).2 :=
        List.length_take_of_le (Rune.ofLead_le_length lead rest)
      have hwhole : rest.take (Rune.ofLead lead rest).2 ++ Rune.encode before ++ Rune.encode after =
          rest := by
        rw [List.append_assoc, ← Rune.encode_append, ← hrest, encode_runes, List.take_append_drop]
      have hfirst : Rune.ofLead lead (rest.take (Rune.ofLead lead rest).2 ++ Rune.encode before) =
          Rune.ofLead lead rest := by
        rw [Rune.ofLead_of_append (u := Rune.encode after), hwhole]
        rw [hwhole, List.length_append, htake]
        exact Nat.le_add_right _ _
      rw [Rune.encode, List.flatMap_cons, ← Rune.encode, Rune.bytes_ofLead, List.cons_append,
        runes_cons, hfirst, List.drop_left' htake, hbefore]

/-- Runes from the middle of a text are read in the same way on their own. -/
theorem runes_of_infix {t : Text} {rs : List Rune} (h : rs <:+: t.runes) :
    (Rune.encode rs).runes = rs := by
  obtain ⟨before, after, h⟩ := h
  have hfront := (runes_of_append h.symm).1
  exact (runes_of_append hfront).2

theorem runes_ne_nil {t : Text} (h : t ≠ []) : t.runes ≠ [] := by
  intro hnil
  rw [← encode_runes t, hnil] at h
  exact h rfl

end Text

/-! ## Words -/

/-- The first piece of a list begins it, and the other pieces lie inside it. -/
theorem exists_pieces_of_splitOnP {α : Type} (p : α → Bool) (xs : List α) :
    ∃ first others, xs.splitOnP p = first :: others ∧ first <+: xs ∧
      ∀ piece ∈ others, piece <:+: xs := by
  induction xs with
  | nil => exact ⟨[], [], List.splitOnP_nil, List.nil_prefix, fun _ h => nomatch h⟩
  | cons x xs ih =>
    obtain ⟨first, others, hsplit, hfirst, hothers⟩ := ih
    rw [List.splitOnP_cons_eq_if_modifyHead, hsplit]
    by_cases hx : p x = true
    · rw [if_pos hx]
      refine ⟨[], first :: others, rfl, List.nil_prefix, ?_⟩
      intro piece hpiece
      rcases List.mem_cons.mp hpiece with rfl | hpiece
      · exact List.infix_cons hfirst.isInfix
      · exact List.infix_cons (hothers piece hpiece)
    · rw [if_neg hx]
      refine ⟨x :: first, others, rfl, (List.prefix_cons_inj x).mpr hfirst, ?_⟩
      exact fun piece hpiece => List.infix_cons (hothers piece hpiece)

/-- Every piece of a list lies inside it. -/
theorem infix_of_mem_splitOnP {α : Type} {p : α → Bool} {xs piece : List α}
    (h : piece ∈ xs.splitOnP p) : piece <:+: xs := by
  obtain ⟨first, others, hsplit, hfirst, hothers⟩ := exists_pieces_of_splitOnP p xs
  rw [hsplit] at h
  rcases List.mem_cons.mp h with rfl | h
  · exact hfirst.isInfix
  · exact hothers piece h

/-- An element that the list is not split on is in one of the pieces. -/
theorem exists_piece_of_mem {α : Type} {p : α → Bool} {x : α} (hx : p x = false) :
    ∀ {xs : List α}, x ∈ xs → ∃ piece ∈ xs.splitOnP p, x ∈ piece := by
  intro xs
  induction xs with
  | nil =>
    intro hmem
    cases hmem
  | cons y ys ih =>
    intro hmem
    obtain ⟨first, others, hsplit⟩ := List.exists_cons_of_ne_nil (List.splitOnP_ne_nil p ys)
    rw [List.splitOnP_cons_eq_if_modifyHead, hsplit, List.modifyHead_cons]
    rw [hsplit] at ih
    -- a separator begins a new piece; any other element joins the first of those that follow
    by_cases hy : p y = true
    · rw [if_pos hy]
      rcases List.mem_cons.mp hmem with rfl | hmem
      · exact absurd hy (Bool.eq_false_iff.mp hx)
      · obtain ⟨piece, hpiece, hx⟩ := ih hmem
        exact ⟨piece, List.mem_cons_of_mem _ hpiece, hx⟩
    · rw [if_neg hy]
      rcases List.mem_cons.mp hmem with rfl | hmem
      · exact ⟨x :: first, List.mem_cons_self, List.mem_cons_self⟩
      · obtain ⟨piece, hpiece, hx⟩ := ih hmem
        rcases List.mem_cons.mp hpiece with rfl | hpiece
        · exact ⟨y :: piece, List.mem_cons_self, List.mem_cons_of_mem y hx⟩
        · exact ⟨piece, List.mem_cons_of_mem _ hpiece, hx⟩

namespace Text

/-- A text that can stand as a token on a line: it is not empty, has no blank, and does not begin a
comment. -/
structure CanBeToken (w : Text) : Prop where
  ne_nil : w ≠ []
  not_blank : ∀ r ∈ w.runes, r.isBlank = false
  not_comment : Line.isComment w = false

/-- A word looked at again is not empty and has no blank. -/
theorem solid_of_mem_words {t w : Text} (h : w ∈ t.words) :
    w ≠ [] ∧ ∀ r ∈ w.runes, r.isBlank = false := by
  obtain ⟨rs, hrs, rfl⟩ := List.mem_map.mp h
  obtain ⟨hpiece, hne⟩ := List.mem_filter.mp hrs
  have hrunes : (Rune.encode rs).runes = rs := runes_of_infix (infix_of_mem_splitOnP hpiece)
  constructor
  · intro hnil
    rw [hnil] at hrunes
    rw [← hrunes] at hne
    exact nomatch hne
  · rw [hrunes]
    exact fun r hr => (mem_of_mem_splitOnP hpiece hr).2

/-- A text without a blank has no ASCII byte that is one. -/
theorem not_mem_of_solid {t : Text} (hsolid : ∀ r ∈ t.runes, r.isBlank = false) {b : UInt8}
    (hb : b.toNat < 0x80) (hblank : isBlankChar (Char.ofNat b.toNat) = true) : b ∉ t := by
  intro hmem
  obtain ⟨before, after, rfl⟩ := List.append_of_mem hmem
  have hrune : Rune.scalar (Char.ofNat b.toNat) ∈ runes (before ++ b :: after) := by
    rw [runes_append_ascii hb]
    exact List.mem_append_right _ List.mem_cons_self
  exact Bool.false_ne_true ((hsolid _ hrune).symm.trans hblank)

/-- A word has no newline. -/
theorem newline_not_mem_of_mem_words {t w : Text} (h : w ∈ t.words) : newline ∉ w :=
  not_mem_of_solid (solid_of_mem_words h).2 (by decide) (by decide)

/-- A character of a text that is not blank is in one of its words. -/
theorem exists_word_of_hasChar {c : Char} (hc : isBlankChar c = false) {t : Text}
    (h : t.hasChar c = true) : ∃ w ∈ t.words, w.hasChar c = true := by
  have hmem : Rune.scalar c ∈ t.runes := List.contains_iff_mem.mp h
  have hsolid : Rune.isBlank (.scalar c) = false := hc
  obtain ⟨piece, hpiece, hrune⟩ := exists_piece_of_mem hsolid hmem
  have hrunes : (Rune.encode piece).runes = piece := runes_of_infix (infix_of_mem_splitOnP hpiece)
  refine ⟨Rune.encode piece, ?_, ?_⟩
  · refine List.mem_map_of_mem (List.mem_filter.mpr ⟨hpiece, ?_⟩)
    rw [Bool.not_eq_true', List.isEmpty_eq_false_iff]
    exact List.ne_nil_of_mem hrune
  · unfold hasChar
    rw [hrunes]
    exact List.contains_iff_mem.mpr hrune

/-- A text without a blank is one word. -/
theorem words_of_solid {w : Text} (hne : w ≠ []) (hsolid : ∀ r ∈ w.runes, r.isBlank = false) :
    w.words = [w] := by
  have hkept : w.runes.isEmpty = false := List.isEmpty_eq_false_iff.mpr (runes_ne_nil hne)
  unfold Text.words
  rw [List.splitOnP_eq_singleton hsolid]
  simp only [List.filter_cons, hkept, Bool.not_false, if_true, List.filter_nil, List.map_cons,
    List.map_nil, encode_runes]

theorem CanBeToken.words {w : Text} (h : w.CanBeToken) : w.words = [w] :=
  words_of_solid h.ne_nil h.not_blank

/-- Tokens with spaces between them are the words of that text. -/
theorem words_spaced_tokens {ts : List Text} (h : ∀ t ∈ ts, t.CanBeToken) :
    (spaced ts).words = ts := by
  unfold spaced joinWith
  induction ts with
  | nil => rfl
  | cons t ts ih =>
    have hword := (h t List.mem_cons_self).words
    cases ts with
    | nil => rw [List.intercalate_singleton, hword]
    | cons u ts =>
      rw [List.intercalate_cons_cons, List.append_assoc, List.singleton_append,
        words_append_ascii (by decide) (by decide), hword,
        ih fun v hv => h v (List.mem_cons_of_mem t hv)]
      rfl

/-! ## Labels -/

/-- Only the first byte of a word says whether a comment begins. -/
theorem isComment_append {t : Text} (h : t ≠ []) (u : Text) :
    Line.isComment (t ++ u) = Line.isComment t := by
  obtain ⟨b, rest, rfl⟩ := List.exists_cons_of_ne_nil h
  rfl

theorem CanBeToken.append_labelMark {name : Text} (h : name.CanBeToken) :
    CanBeToken (name ++ [Line.labelMark]) := by
  refine ⟨List.append_ne_nil_of_left_ne_nil h.ne_nil _, ?_, ?_⟩
  · rw [runes_append_ascii (by decide)]
    intro r hr
    rcases List.mem_append.mp hr with hr | hr
    · exact h.not_blank r hr
    · rw [List.mem_singleton.mp hr]
      rfl
  · rw [isComment_append h.ne_nil]
    exact h.not_comment

/-- What a label names can be a token itself. -/
theorem CanBeToken.of_append_labelMark {name : Text} (h : CanBeToken (name ++ [Line.labelMark]))
    (hne : name ≠ []) : name.CanBeToken := by
  refine ⟨hne, ?_, ?_⟩
  · intro r hr
    apply h.not_blank
    rw [runes_append_ascii (by decide)]
    exact List.mem_append_left _ hr
  · rw [← isComment_append hne]
    exact h.not_comment

end Text

/-! ## Lines -/

namespace Line

theorem canBeToken_of_mem_tokens {t w : Text} (h : w ∈ tokens t) : w.CanBeToken := by
  have hword : w ∈ t.words := (List.takeWhile_sublist _).subset h
  obtain ⟨hne, hsolid⟩ := Text.solid_of_mem_words hword
  have hkept : (!isComment w) = true := List.mem_takeWhile_imp (p := (!isComment ·)) h
  rw [Bool.not_eq_true'] at hkept
  exact ⟨hne, hsolid, hkept⟩

/-- The tokens of a line that is made of tokens. -/
theorem tokens_spaced_tokens {ts : List Text} (h : ∀ t ∈ ts, t.CanBeToken) :
    tokens (spaced ts) = ts := by
  unfold tokens
  rw [Text.words_spaced_tokens h, List.takeWhile_eq_self_iff]
  intro w hw
  rw [(h w hw).not_comment]
  rfl

end Line

namespace Statement

theorem ofTokens_label (name : Text) : ofTokens [name ++ [Line.labelMark]] = .label name := by
  have hlabel : Line.label? [name ++ [Line.labelMark]] = some name := by
    dsimp only [Line.label?]
    rw [if_pos List.getLast?_concat, List.dropLast_concat]
  unfold ofTokens
  simp only [hlabel]

/-- The tokens of a line that defines a label. -/
theorem tokens_of_label {tokens : List Text} {name : Text} (h : ofTokens tokens = .label name) :
    tokens = [name ++ [Line.labelMark]] := by
  rcases tokens with _ | ⟨token, _ | ⟨next, rest⟩⟩
  · cases h
  · by_cases hlast : token.getLast? = some Line.labelMark
    · obtain ⟨front, rfl⟩ := List.getLast?_eq_some_iff.mp hlast
      rw [ofTokens_label] at h
      rw [label.inj h]
    · have hlabel : Line.label? [token] = none := by
        dsimp only [Line.label?]
        rw [if_neg hlast]
      unfold ofTokens at h
      simp only [hlabel] at h
      cases h
  · cases h

/-- The tokens of a line with an instruction. -/
theorem tokens_of_instruction {tokens operands : List Text} {head : Text}
    (h : ofTokens tokens = .instruction head operands) : tokens = head :: operands := by
  cases tokens with
  | nil => cases h
  | cons token rest =>
    unfold ofTokens at h
    dsimp only at h
    split at h
    · cases h
    · obtain ⟨rfl, rfl⟩ := instruction.inj h
      rfl

end Statement

end Glyph8
