import Glyph8.Proofs.Assembly.CleanLabels
import Glyph8.Proofs.Assembly.Encoding
import Glyph8.Proofs.Assembly.Renumbering

/-!
# Code below code

Two blocks of code that are assembled on their own, below the same macros, can be put one below the
other. The words of the result are those of both blocks, unchanged.

Two things move. The lower block moves down in the text, which changes only the numbers of its lines
(`assembles_further_down`). And it moves up in positions, by the number of words above it. Every
label of the block moves by as much as the block's jumps do (`SymbolTable.MovesTo`), so no distance
changes (`displacement_moved`), and neither does a word. The upper block does not move at all, which
is the same argument with a shift of zero.

For the two tables of labels to become one, the blocks must not share a label. Then the labels of
both together are clean (`CleanLabels.append`), each look-up finds the entry of its own block
(`movesTo_upper`, `movesTo_lower`), and the second pass over the whole is that over the parts
(`encodeAll_append`).

On texts there is one more detail. What is the last line of the upper text becomes a line with a
newline after it, and so may lose a carriage return; no token changes (`lines_below`). The main
result is `assemble_append`.
-/

namespace Glyph8

/-! ## Labels that move -/

namespace SymbolTable

/-- The table with every label `k` positions further on. -/
def moved (k : Nat) (t : SymbolTable) : SymbolTable :=
  ⟨t.entries.map fun (name, position) => (name, position + k)⟩

/-- Every label of `t` stands in `t'`, `k` positions further on. -/
def MovesTo (k : Nat) (t t' : SymbolTable) : Prop :=
  ∀ name position, t.find? name = some position → t'.find? name = some (position + k)

end SymbolTable

section

variable {k : Nat} {t t' : SymbolTable} {pc : Nat}

/-- A jump that moves along with the labels keeps its displacement. -/
theorem displacement_moved (ht : t.MovesTo k t') {token : Text} {d : Displacement}
    (h : Operand.displacement t (Operand.distance pc) token = .ok d) :
    Operand.displacement t' (Operand.distance (pc + k)) token = .ok d := by
  unfold Operand.displacement at h ⊢
  cases hlit : jumpLiteral? token with
  | some v =>
    rw [hlit] at h
    exact h
  | none =>
    rw [hlit] at h
    cases hfind : t.find? token with
    | none => simp only [hfind] at h; cases h
    | some target =>
      have hdistance : Operand.distance (pc + k) (target + k) = Operand.distance pc target := by
        unfold Operand.distance
        omega
      simp only [hfind] at h
      simp only [ht token target hfind, hdistance]
      exact h

/-- An instruction that moves along with the labels is read as before; only a jump looks at them. -/
theorem ofTokens_moved (ht : t.MovesTo k t') {head : Text} {operands : List Text}
    {instr : Instruction} (h : Instruction.ofTokens t pc head operands = .ok instr) :
    Instruction.ofTokens t' (pc + k) head operands = .ok instr := by
  by_cases hop : Opcode.ofToken? head = some .jump
  · obtain ⟨token, d, rfl, hd, rfl⟩ := ofTokens_jump hop h
    unfold Instruction.ofTokens Instruction.read
    simp only [hop]
    exact map_eq_ok_iff.mpr ⟨d, displacement_moved ht hd, rfl⟩
  · -- only a jump looks at labels and positions
    rw [← h]
    unfold Instruction.ofTokens Instruction.read
    split
    case h_8 hjump => exact absurd hjump hop
    all_goals rfl

theorem place_moved (ht : t.MovesTo k t') {l : InstructionLine} {w : PlacedWord}
    (h : l.place t pc = .ok w) : l.place t' (pc + k) = .ok w := by
  obtain ⟨instr, hinstr, rfl⟩ := place_eq_ok_iff.mp h
  exact place_eq_ok_iff.mpr ⟨instr, ofTokens_moved ht hinstr, rfl⟩

/-- Instruction lines that start `k` positions further on have the same words. -/
theorem mapM_place_moved (ht : t.MovesTo k t') {ls : List InstructionLine} {first : Nat}
    {placed : List PlacedWord}
    (h : ((ls.zipIdx first).mapM fun (l, pc) => l.place t pc) = .ok placed) :
    ((ls.zipIdx (first + k)).mapM fun (l, pc) => l.place t' pc) = .ok placed := by
  rw [Nat.add_comm, ← List.map_snd_add_zipIdx_eq_zipIdx, mapM_eq_ok_iff, List.forall₂_map_left_iff]
  exact (mapM_eq_ok_iff.mp h).imp fun _ _ hplace => place_moved ht hplace

end

/-! ## Blocks of code -/

section

variable {a b : List Line}

/-- With more instructions before the code, all its labels are that much further on. -/
theorem labelPositions_add (k : Nat) : ∀ (code : List Line) (count : Nat),
    labelPositions (count + k) code =
      (labelPositions count code).map fun (name, position) => (name, position + k) := by
  intro code
  induction code with
  | nil => intro count; rfl
  | cons line code ih =>
    intro count
    cases hs : line.statement with
    | blank => simp only [labelPositions, hs, ih]
    | label name => simp only [labelPositions, hs, ih, List.map_cons, Nat.add_right_comm]
    | instruction head operands =>
      simp only [labelPositions, hs]
      rw [Nat.add_right_comm, ih]

/-- The labels of the lower block come after those of the upper one, and have moved. -/
theorem entries_labelTable_append (a b : List Line) :
    (labelTable (a ++ b)).entries = (labelTable a).entries ++
      ((labelTable b).moved (instructionLines a).length).entries := by
  show labelPositions 0 (a ++ b) = _
  rw [labelPositions_append, labelPositions_add]
  rfl

/-- Blocks with clean labels and no common one have clean labels together. -/
theorem CleanLabels.append (ha : CleanLabels a) (hb : CleanLabels b)
    (hdisjoint : ∀ name ∈ labelNames a, name ∉ labelNames b) : CleanLabels (a ++ b) := by
  constructor
  · rw [labelNames_append, List.mem_append, not_or]
    exact ⟨ha.nonempty, hb.nonempty⟩
  · rw [labelNames_append, List.nodup_append]
    refine ⟨ha.nodup, hb.nodup, ?_⟩
    rintro name hname _ hname' rfl
    exact hdisjoint name hname hname'

/-- In a table of clean labels, what is found is what was entered. -/
theorem CleanLabels.find?_iff {code : List Line} (h : CleanLabels code) {name : Text}
    {position : Nat} :
    (labelTable code).find? name = some position ↔
      (name, position) ∈ (labelTable code).entries := by
  apply SymbolTable.find?_eq_some_iff_mem
  rw [map_fst_labelTable]
  exact h.nodup

/-- The labels of the upper block stay where they are. -/
theorem movesTo_upper (ha : CleanLabels a) (hab : CleanLabels (a ++ b)) :
    (labelTable a).MovesTo 0 (labelTable (a ++ b)) := by
  intro name position h
  rw [hab.find?_iff, entries_labelTable_append]
  exact List.mem_append_left _ (ha.find?_iff.mp h)

/-- The labels of the lower block move on by the instructions above it. -/
theorem movesTo_lower (hb : CleanLabels b) (hab : CleanLabels (a ++ b)) :
    (labelTable b).MovesTo (instructionLines a).length (labelTable (a ++ b)) := by
  intro name position h
  rw [hab.find?_iff, entries_labelTable_append]
  exact List.mem_append_right _ (List.mem_map.mpr ⟨_, hb.find?_iff.mp h, rfl⟩)

/-- Blocks whose labels moved with them are encoded as they were. -/
theorem encodeAll_append {s t u : SymbolTable} {x y : List PlacedWord}
    (hs : s.MovesTo 0 u) (ht : t.MovesTo (instructionLines a).length u)
    (ha : encodeAll s a = .ok x) (hb : encodeAll t b = .ok y) :
    encodeAll u (a ++ b) = .ok (x ++ y) := by
  unfold encodeAll at ha hb ⊢
  rw [instructionLines_append, List.zipIdx_append, mapM_eq_ok_iff]
  exact List.rel_append (mapM_eq_ok_iff.mp (mapM_place_moved hs ha))
    (mapM_eq_ok_iff.mp (mapM_place_moved ht hb))

/-- Two blocks of code without a common label are assembled together as they are on their own, but
for the positions of the lower block's labels. -/
theorem assembleCode_append {p q : Program} (ha : assembleCode a = .ok p)
    (hb : assembleCode b = .ok q)
    (hdisjoint : ∀ name, p.symbols.contains name = true → q.symbols.contains name = false) :
    assembleCode (a ++ b) = .ok
      { placed := p.placed ++ q.placed
        symbols := ⟨p.symbols.entries ++ (q.symbols.moved p.words.length).entries⟩ } := by
  obtain ⟨hca, hpa, hsa⟩ := assembleCode_eq_ok_iff.mp ha
  obtain ⟨hcb, hpb, hsb⟩ := assembleCode_eq_ok_iff.mp hb
  have hsize : p.words.length = (instructionLines a).length :=
    (List.length_map _).trans (length_encodeAll hpa)
  have hclean : CleanLabels (a ++ b) := by
    refine hca.append hcb ?_
    intro name hname hname'
    have hfree := hdisjoint name (by rw [hsa]; exact find?_labelTable_isSome_iff.mpr hname)
    rw [hsb] at hfree
    exact Bool.false_ne_true (hfree.symm.trans (find?_labelTable_isSome_iff.mpr hname'))
  refine assembleCode_eq_ok_iff.mpr ⟨hclean, ?_, ?_⟩
  · exact encodeAll_append (movesTo_upper hca hclean) (movesTo_lower hcb hclean) hpa hpb
  · rw [hsize, hsa, hsb, ← entries_labelTable_append]

end

/-! ## Blocks of text -/

/-- Texts with the same tokens, `shift` lines further down, are assembled to the same words. -/
theorem assembles_further_down {macros : List Macro} {upper lower : List Text} {code : List Line}
    {p : Program} {first : Nat}
    (h : List.Forall₂ (fun s t => Line.tokens s = Line.tokens t) upper lower)
    (hcode : expand macros (numbered first upper) = .ok code) (hp : assembleCode code = .ok p)
    (shift : Nat) :
    ∃ code' p', expand macros (numbered (first + shift) lower) = .ok code' ∧
      assembleCode code' = .ok p' ∧ p'.words = p.words ∧
      p'.lines = p.lines.map (· + (shift : Int)) ∧ p'.symbols = p.symbols := by
  obtain ⟨code', hcode', hlike⟩ := (expand_like (forall₂_macro_like_refl macros)
    (numbered_like h first shift)).exists_ok hcode
  obtain ⟨p', hp', hsame⟩ := (assembleCode_like hlike).exists_ok hp
  refine ⟨code', p', hcode', hp', hsame.words, ?_, hsame.symbols.symm⟩
  rw [← List.forall₂_eq_eq_eq, List.forall₂_map_right_iff]
  exact hsame.lines.flip

/-- What stands below a text that ends with the code marker is the code. -/
theorem sections_below {head : Text} {macros : List Macro}
    (h : sections head = .ok ⟨macros, []⟩) (u : Text) :
    sections (head ++ Text.newline :: u) =
      .ok ⟨macros, numbered (head.lines.length + 1) u.lines⟩ := by
  obtain ⟨before, marker, after, hlines, hbegins, hcode⟩ := sections_eq_ok_iff.mp h
  -- there is no code, so the marker is on the last line
  have hafter : after = [] := by
    have htexts := map_text_numbered (before.length + 2) after
    rw [← hcode] at htexts
    exact htexts.symm
  subst hafter
  obtain ⟨before', last, hlines', hjoin⟩ := Text.exists_lines_append head
  obtain ⟨rfl, rfl⟩ := List.append_singleton_inj.mp (hlines.symm.trans hlines')
  refine sections_eq_ok_iff.mpr ⟨before, _, u.lines, hjoin u, hbegins.stripReturn, ?_⟩
  rw [hlines, List.length_append]
  rfl

/-- Assembling below a head is expanding and assembling what stands there. -/
theorem assemble_below {head : Text} {macros : List Macro}
    (h : sections head = .ok ⟨macros, []⟩) (u : Text) :
    assemble (head ++ Text.newline :: u) =
      expand macros (numbered (head.lines.length + 1) u.lines) >>= assembleCode := by
  unfold assemble expandedCode
  rw [sections_below h, ok_bind]

/-- The last line of the upper text may lose a carriage return, which is in no token. -/
theorem lines_below (a b : Text) :
    ∃ upper, (a ++ Text.newline :: b).lines = upper ++ b.lines ∧
      List.Forall₂ (fun s t => Line.tokens s = Line.tokens t) a.lines upper := by
  obtain ⟨before, last, hlines, hjoin⟩ := Text.exists_lines_append a
  refine ⟨before ++ [Text.stripReturn last], by rw [hjoin, List.append_assoc]; rfl, ?_⟩
  have hbefore : List.Forall₂ (fun s t => Line.tokens s = Line.tokens t) before before :=
    List.forall₂_same.mpr fun _ _ => rfl
  rw [hlines]
  exact List.rel_append hbefore (.cons (Line.tokens_stripReturn last).symm .nil)

/-- Two texts that can be assembled below the same head, which ends with the code marker and so has
no code of its own, and that have no common label, can be assembled one below the other. The words
are those of both. The lines of the lower text are counted on from the upper one, and so are the
positions of its labels. -/
theorem assemble_append {head a b : Text} {macros : List Macro} {p q : Program}
    (hhead : sections head = .ok ⟨macros, []⟩)
    (hp : assemble (head ++ Text.newline :: a) = .ok p)
    (hq : assemble (head ++ Text.newline :: b) = .ok q)
    (hdisjoint : ∀ name, p.symbols.contains name = true → q.symbols.contains name = false) :
    ∃ r, assemble (head ++ Text.newline :: (a ++ Text.newline :: b)) = .ok r ∧
      r.words = p.words ++ q.words ∧
      r.lines = p.lines ++ q.lines.map (· + (a.lines.length : Int)) ∧
      r.symbols.entries = p.symbols.entries ++
        q.symbols.entries.map fun (name, position) => (name, position + p.words.length) := by
  rw [assemble_below hhead] at hp hq ⊢
  obtain ⟨x, hx, hp⟩ := bind_eq_ok_iff.mp hp
  obtain ⟨y, hy, hq⟩ := bind_eq_ok_iff.mp hq
  obtain ⟨upper, hlines, hupper⟩ := lines_below a b
  -- the upper text stays where it is, the lower one moves down by the lines of the upper one
  obtain ⟨x', p', hx', hp', hpwords, hplines, hpsymbols⟩ := assembles_further_down hupper hx hp 0
  obtain ⟨y', q', hy', hq', hqwords, hqlines, hqsymbols⟩ :=
    assembles_further_down (List.forall₂_same.mpr fun _ _ => rfl) hy hq upper.length
  have hr := assembleCode_append hp' hq' (by rw [hpsymbols, hqsymbols]; exact hdisjoint)
  refine ⟨_, bind_eq_ok_iff.mpr ⟨x' ++ y', ?_, hr⟩, ?_, ?_, ?_⟩
  · rw [hlines, numbered_append]
    exact expand_append hx' hy'
  · rw [← hpwords, ← hqwords]
    exact List.map_append
  · have hplines' : p'.lines = p.lines := hplines.trans (by simp)
    rw [hupper.length_eq, ← hqlines, ← hplines']
    exact List.map_append
  · rw [← hpsymbols, ← hqsymbols, ← hpwords]
    rfl

/-- A macro that jumps, and the code marker on a line that ends in a carriage return. -/
def jumpingHead : Text := utf8 "🔓 go\n♿ _\n🔒\n💬\r"

/-- Code that ends with a label. -/
def loopText : Text := utf8 "top:\ngo top\nend:\r"

/-- Code with a jump over an empty line. -/
def haltText : Text := utf8 "go fin\n\nfin:\n🤖 🔪"

/-- A label at the end of the upper block keeps its position, and the jump of the lower block its
displacement. -/
theorem assemble_append_jumping :
    ∃ p q r, sections jumpingHead = .ok ⟨[⟨utf8 "go", 1, [utf8 "♿ _"]⟩], []⟩ ∧
      assemble (jumpingHead ++ Text.newline :: loopText) = .ok p ∧
      assemble (jumpingHead ++ Text.newline :: haltText) = .ok q ∧
      assemble (jumpingHead ++ Text.newline :: (loopText ++ Text.newline :: haltText)) = .ok r ∧
      p.lines = [6] ∧ q.lines = [5, 8] ∧ r.lines = [6, 8, 11] ∧ r.words = [0xC0, 0xC1, 0xE2] ∧
      q.symbols.entries = [(utf8 "fin", 2)] ∧
      r.symbols.entries = [(utf8 "top", 1), (utf8 "end", 2), (utf8 "fin", 3)] := by
  have hhead : sections jumpingHead = .ok ⟨[⟨utf8 "go", 1, [utf8 "♿ _"]⟩], []⟩ := by
    decide +kernel
  have hp : assemble (jumpingHead ++ Text.newline :: loopText) =
      .ok ⟨[⟨6, 0xC0⟩], ⟨[(utf8 "top", 1), (utf8 "end", 2)]⟩⟩ := by decide +kernel
  have hq : assemble (jumpingHead ++ Text.newline :: haltText) =
      .ok ⟨[⟨5, 0xC1⟩, ⟨8, 0xE2⟩], ⟨[(utf8 "fin", 2)]⟩⟩ := by decide +kernel
  obtain ⟨r, hr, hwords, hlines, hsymbols⟩ := assemble_append hhead hp hq (by
    intro name hname
    rw [SymbolTable.contains_eq_false_iff]
    intro hmem
    obtain rfl := List.mem_singleton.mp hmem
    revert hname
    decide +kernel)
  exact ⟨_, _, r, hhead, hp, hq, hr, rfl, rfl, hlines.trans (by decide +kernel), hwords, rfl,
    hsymbols⟩

end Glyph8
