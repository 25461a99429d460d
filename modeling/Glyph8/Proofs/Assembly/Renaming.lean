import Glyph8.Proofs.Assembly.MacroFree
import Glyph8.Proofs.Text.Numerals
import Glyph8.Proofs.Text.Tokens

/-!
# Renaming labels

Labels are only names. Renaming them, where they are defined and where a jump refers to them, leaves
the words and their lines as they are and renames the symbols, or fails in the same way on the same
line (`labels_are_only_names`).

A `LabelRenaming` gives each name a new one. What has to be kept apart are labels from each other,
which is injectivity, and labels from numbers: a new name must not be taken for one. Names must stay
names, that is, texts that can be tokens. `rewrite` renames the tokens of a line, and a line with
these tokens, in any spacing and with any comment, is the renamed line (`Rewrites`).

The proof compares the two runs step by step. A renamed line states the same up to the name
(`Rewrites.statement`). Look-up in the renamed table finds what look-up in the table finds
(`find?_table`), so a survey of renamed code stays the renamed survey (`SameSurvey.visit`), and a
jump to a renamed label has the same displacement or fails in the same way (`displacement_rename`).
All other instructions do not look at the labels (`ofTokens_other`).

A jump takes more texts for numbers than there are numbers (`Text.takenAsNumber`): a label that
begins with a number too large for 64 bits is never found. If a renaming has to avoid the numbers
alone, the result does not hold (`numeral_hides_label`).
-/

namespace Glyph8

/-! ## What a jump takes for a number -/

/-- Whether a jump takes a text for a number: the text is one, or it begins with one that is too
large for 64 bits, whatever comes after it. -/
def Text.takenAsNumber (t : Text) : Bool :=
  t.isSignedDecimal || UInt64.size ≤ digitsValue (t.splitSign.2.takeWhile isDigit)

/-- What a jump does not look up as a label. -/
theorem isSome_jumpLiteral? (token : Text) : (jumpLiteral? token).isSome = token.takenAsNumber := by
  show (jumpLiteral? token).isSome = Text.readsAsDigits token.splitSign.2
  unfold jumpLiteral? Text.integer?
  dsimp only
  cases Text.readsAsDigits token.splitSign.2 with
  | true => rfl
  | false => rfl

/-! ## Renamings -/

/-- Both diagnostics are of the same class and on the same line. -/
structure Diagnostic.SameKind (d e : Diagnostic) : Prop where
  kind : e.kind = d.kind
  line : e.line = d.line

/-- New names for labels. A name is any text that can be a token. Different names stay different,
and no new name is a literal. -/
structure LabelRenaming (literal : Text → Bool) where
  rename : Text → Text
  canBeToken : ∀ {name : Text}, name.CanBeToken → (rename name).CanBeToken
  not_literal : ∀ {name : Text}, name.CanBeToken → literal (rename name) = false
  injective : ∀ {a b : Text}, a.CanBeToken → b.CanBeToken → rename a = rename b → a = b

namespace LabelRenaming

variable {literal : Text → Bool} (r : LabelRenaming literal)

/-- The tokens of a line with labels renamed: the name that the line defines, or the only operand of
a jump unless it is a literal. -/
def rewrite (tokens : List Text) : List Text :=
  match Statement.ofTokens tokens with
  | .label name => if name.isEmpty then tokens else [r.rename name ++ [Line.labelMark]]
  | .instruction head [target] =>
    if Opcode.ofToken? head = some .jump ∧ literal target = false then [head, r.rename target]
    else tokens
  | _ => tokens

/-- A line with labels renamed. Lines without labels are left as they are. -/
def line (l : Line) : Line :=
  let tokens := Line.tokens l.text
  if r.rewrite tokens = tokens then l else { l with text := spaced (r.rewrite tokens) }

/-- The second line is the first with labels renamed, with any blanks and comments. -/
structure Rewrites (l l' : Line) : Prop where
  num : l'.num = l.num
  tokens : Line.tokens l'.text = r.rewrite (Line.tokens l.text)

/-- A symbol table with labels renamed. -/
def table (t : SymbolTable) : SymbolTable :=
  ⟨t.entries.map fun (name, position) => (r.rename name, position)⟩

/-- Both programs have the same words on the same lines, and the second has the renamed symbols. -/
structure SameProgram (p q : Program) : Prop where
  words : q.words = p.words
  lines : q.lines = p.lines
  symbols : q.symbols = r.table p.symbols

/-- Both assemblies give programs that differ in the names of labels, or both fail in the same way
on the same line. -/
def SameOutcome (x y : Except Diagnostic Program) : Prop :=
  EndsAlike Diagnostic.SameKind r.SameProgram x y

/-! ## Statements -/

/-- What renaming does to a statement. -/
inductive Renamed : Statement → Statement → Prop
  | blank : Renamed .blank .blank
  | unnamed : Renamed (.label []) (.label [])
  | label {name : Text} (hname : name.CanBeToken) : Renamed (.label name) (.label (r.rename name))
  | jump {head target : Text} (hhead : Opcode.ofToken? head = some .jump)
      (htarget : target.CanBeToken) (hliteral : literal target = false) :
      Renamed (.instruction head [target]) (.instruction head [r.rename target])
  | other {head : Text} {operands : List Text}
      (hother : ∀ target, Opcode.ofToken? head = some .jump → operands = [target] →
        literal target = true) :
      Renamed (.instruction head operands) (.instruction head operands)

/-- Rewriting the tokens of a line renames its statement, and leaves tokens. -/
theorem renamed_rewrite {tokens : List Text} (h : ∀ t ∈ tokens, t.CanBeToken) :
    r.Renamed (.ofTokens tokens) (.ofTokens (r.rewrite tokens)) ∧
      ∀ t ∈ r.rewrite tokens, t.CanBeToken := by
  unfold rewrite
  cases hs : Statement.ofTokens tokens with
  | blank =>
    dsimp only
    rw [hs]
    exact ⟨.blank, h⟩
  | label name =>
    obtain rfl := Statement.tokens_of_label hs
    dsimp only
    -- an empty label stays: it is an error with or without a new name
    by_cases hname : name = []
    · subst hname
      rw [if_pos List.isEmpty_nil, hs]
      exact ⟨.unnamed, h⟩
    · have hcan := (h _ List.mem_cons_self).of_append_labelMark hname
      rw [if_neg (by rwa [List.isEmpty_iff]), Statement.ofTokens_label]
      exact ⟨.label hcan, List.forall_mem_singleton.mpr (r.canBeToken hcan).append_labelMark⟩
  | instruction head operands =>
    obtain rfl := Statement.tokens_of_instruction hs
    by_cases hjump : ∃ target, operands = [target] ∧ Opcode.ofToken? head = some .jump ∧
        literal target = false
    · obtain ⟨target, rfl, hhead, hliteral⟩ := hjump
      have htarget := h target (List.mem_cons_of_mem _ List.mem_cons_self)
      dsimp only
      rw [if_pos ⟨hhead, hliteral⟩]
      refine ⟨.jump hhead htarget hliteral, ?_⟩
      exact List.forall_mem_cons.mpr
        ⟨h head List.mem_cons_self, List.forall_mem_singleton.mpr (r.canBeToken htarget)⟩
    · have hother : ∀ target, Opcode.ofToken? head = some .jump → operands = [target] →
          literal target = true := by
        intro target hhead hoperands
        rw [← Bool.not_eq_false]
        exact fun hliteral => hjump ⟨target, hoperands, hhead, hliteral⟩
      -- every other line is kept: it is no jump, or one that does not go to a label
      split
      · next heq => cases heq
      · next heq =>
        obtain ⟨rfl, rfl⟩ := Statement.instruction.inj heq
        rw [if_neg fun hcond => hjump ⟨_, rfl, hcond⟩, hs]
        exact ⟨.other hother, h⟩
      · rw [hs]
        exact ⟨.other hother, h⟩

/-- A rewritten line states what the line states, with the label renamed. -/
theorem Rewrites.statement {l l' : Line} (h : r.Rewrites l l') :
    r.Renamed l.statement l'.statement := by
  unfold Line.statement
  rw [h.tokens]
  exact (r.renamed_rewrite fun _ => Line.canBeToken_of_mem_tokens).1

/-- Rewriting the text of a line is one way to rename its label. -/
theorem rewrites_line (l : Line) : r.Rewrites l (r.line l) := by
  have htokens := (r.renamed_rewrite fun _ => Line.canBeToken_of_mem_tokens (t := l.text)).2
  unfold line
  by_cases hsame : r.rewrite (Line.tokens l.text) = Line.tokens l.text
  · simp only [if_pos hsame]
    exact ⟨rfl, hsame.symm⟩
  · simp only [if_neg hsame]
    exact ⟨rfl, Line.tokens_spaced_tokens htokens⟩

/-! ## Symbol tables -/

/-- All labels of the table are names. -/
def Named (t : SymbolTable) : Prop := ∀ entry ∈ t.entries, entry.1.CanBeToken

section

variable {t : SymbolTable} {name : Text}

/-- A renamed label is where the label was. It is found under no other name, as names stay
different. -/
theorem find?_table (ht : Named t) (hname : name.CanBeToken) :
    (r.table t).find? (r.rename name) = t.find? name := by
  obtain ⟨entries⟩ := t
  unfold SymbolTable.find? table
  induction entries with
  | nil => rfl
  | cons entry entries ih =>
    obtain ⟨first, position⟩ := entry
    have hfirst : first.CanBeToken := ht _ List.mem_cons_self
    have hrest := ih fun e he => ht e (List.mem_cons_of_mem _ he)
    rw [List.map_cons, List.lookup_cons, List.lookup_cons, hrest]
    by_cases heq : name = first
    · rw [heq, beq_self_eq_true, beq_self_eq_true]
    · have hne : r.rename name ≠ r.rename first := fun h => heq (r.injective hname hfirst h)
      rw [beq_false_of_ne heq, beq_false_of_ne hne]

theorem contains_table (ht : Named t) (hname : name.CanBeToken) :
    (r.table t).contains (r.rename name) = t.contains name := by
  unfold SymbolTable.contains
  rw [r.find?_table ht hname]

/-- Entering a label and renaming the table can change places. -/
theorem insert_table (ht : Named t) (hname : name.CanBeToken)
    (hfree : t.contains name = false) (position : Nat) :
    (r.table t).insert (r.rename name) position = r.table (t.insert name position) := by
  have hfree' : (r.table t).contains (r.rename name) = false := by
    rw [r.contains_table ht hname, hfree]
  have hentries := SymbolTable.entries_insert_of_not_contains hfree position
  have hentries' := SymbolTable.entries_insert_of_not_contains hfree' position
  have hboth : ((r.table t).insert (r.rename name) position).entries =
      (r.table (t.insert name position)).entries := by
    unfold table at hentries' ⊢
    rw [hentries', hentries, List.map_append]
    rfl
  exact congrArg SymbolTable.mk hboth

theorem named_insert (ht : Named t) (hname : name.CanBeToken) (position : Nat) :
    Named (t.insert name position) := by
  intro entry hentry
  rcases List.mem_append.mp hentry with hentry | hentry
  · exact ht entry (List.mem_filter.mp hentry).1
  · rw [List.mem_singleton.mp hentry]
    exact hname

end

/-! ## The first pass -/

/-- Both surveys have found the same labels but for their names, after the same number of
instructions. -/
structure SameSurvey (s t : Survey) : Prop where
  symbols : t.symbols = r.table s.symbols
  count : t.count = s.count
  named : Named s.symbols

/-- One more line keeps what both surveys have found the same. -/
theorem SameSurvey.visit {s t : Survey} (hst : r.SameSurvey s t) {l l' : Line}
    (h : r.Rewrites l l') :
    EndsAlike Diagnostic.SameKind r.SameSurvey
      (s.visit l) (t.visit l') := by
  have hstatement := h.statement
  unfold Survey.visit
  generalize l.statement = st, l'.statement = st' at hstatement ⊢
  cases hstatement with
  | blank => exact .ok hst
  | unnamed => exact .error ⟨rfl, h.num⟩
  | jump | other => exact .ok ⟨hst.symbols, congrArg (· + 1) hst.count, hst.named⟩
  | @label name hname =>
    have hfull : name.isEmpty = false := List.isEmpty_eq_false_iff.mpr hname.ne_nil
    have hfull' : (r.rename name).isEmpty = false :=
      List.isEmpty_eq_false_iff.mpr (r.canBeToken hname).ne_nil
    -- names stay different, so a label is repeated exactly if it was before
    have hcontains := r.contains_table hst.named hname
    simp only [hfull, hfull', hst.symbols, hcontains, hst.count]
    cases hdup : s.symbols.contains name with
    | true => exact .error ⟨rfl, h.num⟩
    | false =>
      refine .ok ⟨?_, rfl, named_insert hst.named hname _⟩
      exact r.insert_table hst.named hname hdup _

/-- The first pass goes the same way over renamed code. -/
theorem survey_rewritten {code code' : List Line} (h : List.Forall₂ r.Rewrites code code') :
    EndsAlike Diagnostic.SameKind r.SameSurvey
      (survey code) (survey code') := by
  refine EndsAlike.foldlM (fun s t l l' hst hl => hst.visit r hl) h ?_
  exact ⟨rfl, rfl, nofun⟩

/-! ## The second pass -/

section

variable (r : LabelRenaming Text.takenAsNumber) {symbols : SymbolTable}

/-- A jump to a renamed label has the same displacement, or is wrong in the same way. -/
theorem displacement_rename {target : Text} (hsymbols : Named symbols)
    (htarget : target.CanBeToken) (hnumber : target.takenAsNumber = false) (pc : Nat) :
    EndsAlike (fun f g => g.kind = f.kind) Eq
      (Operand.displacement symbols (Operand.distance pc) target)
      (Operand.displacement (r.table symbols) (Operand.distance pc) (r.rename target)) := by
  have hnone : ∀ t : Text, t.takenAsNumber = false → jumpLiteral? t = none := by
    intro t ht
    rw [← Option.isSome_eq_false_iff.trans Option.isNone_iff_eq_none, isSome_jumpLiteral?, ht]
  unfold Operand.displacement
  simp only [hnone target hnumber, hnone _ (r.not_literal htarget), r.find?_table hsymbols htarget]
  cases symbols.find? target with
  | none => exact .error rfl
  | some position =>
    dsimp only
    cases Displacement.ofInt? (Operand.distance pc position) with
    | none => exact .error rfl
    | some d => exact .ok rfl

/-- A number is the same displacement whatever the labels. -/
theorem displacement_number {target : Text} (h : target.takenAsNumber = true)
    (symbols symbols' : SymbolTable) (pc : Nat) :
    Operand.displacement symbols (Operand.distance pc) target =
      Operand.displacement symbols' (Operand.distance pc) target := by
  rw [← isSome_jumpLiteral?] at h
  obtain ⟨d, hd⟩ := Option.isSome_iff_exists.mp h
  unfold Operand.displacement
  simp only [hd]

/-- Only a jump to a label looks at the labels. -/
theorem ofTokens_other {head : Text} {operands : List Text}
    (hother : ∀ target, Opcode.ofToken? head = some .jump → operands = [target] →
      target.takenAsNumber = true) (symbols symbols' : SymbolTable) (pc : Nat) :
    Instruction.ofTokens symbols pc head operands =
      Instruction.ofTokens symbols' pc head operands := by
  unfold Instruction.ofTokens Instruction.read
  cases hop : Opcode.ofToken? head with
  | none => rfl
  | some op =>
    cases op with
    | add | sub | ifeq | addi | subi | li | syscall => rfl
    | jump =>
      rcases operands with _ | ⟨target, _ | ⟨next, rest⟩⟩
      · rfl
      · show (Operand.displacement symbols (Operand.distance pc) target).map _ =
          (Operand.displacement symbols' (Operand.distance pc) target).map _
        rw [displacement_number (hother target hop rfl) symbols symbols']
      · rfl

/-- A renamed instruction is read as the same instruction, or is wrong in the same way. -/
theorem ofTokens_renamed {head head' : Text} {operands operands' : List Text}
    (hsymbols : Named symbols)
    (h : r.Renamed (.instruction head operands) (.instruction head' operands')) (pc : Nat) :
    EndsAlike (fun f g => g.kind = f.kind) Eq
      (Instruction.ofTokens symbols pc head operands)
      (Instruction.ofTokens (r.table symbols) pc head' operands') := by
  cases h with
  | @jump _ target hhead htarget hnumber =>
    have hd := r.displacement_rename hsymbols htarget hnumber pc
    unfold Instruction.ofTokens Instruction.read
    simp only [hhead]
    show EndsAlike _ Eq
      ((Operand.displacement symbols (Operand.distance pc) target).map Instruction.jump)
      ((Operand.displacement (r.table symbols) (Operand.distance pc) (r.rename target)).map
        Instruction.jump)
    generalize Operand.displacement symbols (Operand.distance pc) target = x,
      Operand.displacement (r.table symbols) (Operand.distance pc) (r.rename target) = y at hd ⊢
    cases hd with
    | error hkind => exact .error hkind
    | ok hd => exact .ok (congrArg Instruction.jump hd)
  -- no label is looked up, so the tables do not matter
  | other hother =>
    rw [ofTokens_other hother symbols (r.table symbols)]
    cases Instruction.ofTokens (r.table symbols) pc head operands with
    | error fault => exact .error rfl
    | ok i => exact .ok rfl

/-- The second instruction line is the first with the label renamed that it jumps to. -/
structure SameInstruction (k l : InstructionLine) : Prop where
  num : l.num = k.num
  renamed : r.Renamed (.instruction k.head k.operands) (.instruction l.head l.operands)

/-- A renamed instruction line has the same word on the same line. -/
theorem SameInstruction.place {k l : InstructionLine} (h : r.SameInstruction k l)
    (hsymbols : Named symbols) (pc : Nat) :
    EndsAlike Diagnostic.SameKind Eq (k.place symbols pc) (l.place (r.table symbols) pc) := by
  have hinstruction := r.ofTokens_renamed hsymbols h.renamed pc
  unfold InstructionLine.place
  rw [k.encode_eq, l.encode_eq, h.num]
  generalize Instruction.ofTokens symbols pc _ _ = x,
    Instruction.ofTokens (r.table symbols) pc _ _ = y at hinstruction ⊢
  cases hinstruction with
  | error hkind => exact .error ⟨hkind, rfl⟩
  | @ok i j hij =>
    subst hij
    exact .ok rfl

variable {code code' : List Line}

/-- Renaming keeps instruction lines apart from the others. -/
theorem instructionLines_rewritten (h : List.Forall₂ r.Rewrites code code') :
    List.Forall₂ r.SameInstruction (instructionLines code) (instructionLines code') := by
  refine List.rel_filterMap ?_ h
  intro l l' hl
  have hstatement := hl.statement
  unfold InstructionLine.ofLine?
  generalize l.statement = st, l'.statement = st' at hstatement ⊢
  cases hstatement with
  | blank | unnamed | label => exact .none
  | jump hhead htarget hnumber => exact .some ⟨hl.num, .jump hhead htarget hnumber⟩
  | other hother => exact .some ⟨hl.num, .other hother⟩

/-- The second pass goes the same way over renamed code. -/
theorem encodeAll_rewritten (h : List.Forall₂ r.Rewrites code code') (hsymbols : Named symbols) :
    EndsAlike Diagnostic.SameKind Eq
      (encodeAll symbols code) (encodeAll (r.table symbols) code') := by
  have hplaced : EndsAlike Diagnostic.SameKind (List.Forall₂ Eq)
      (encodeAll symbols code) (encodeAll (r.table symbols) code') := by
    refine EndsAlike.mapM ?_ (forall₂_zipIdx (r.instructionLines_rewritten h) 1)
    rintro ⟨k, pc⟩ ⟨l, pc'⟩ ⟨hkl, rfl⟩
    exact hkl.place r hsymbols pc
  rwa [List.forall₂_eq_eq_eq] at hplaced

/-- Renamed code is assembled to the same, with the symbols renamed. -/
theorem assembleCode_rewritten (h : List.Forall₂ r.Rewrites code code') :
    r.SameOutcome (assembleCode code) (assembleCode code') := by
  refine (r.survey_rewritten h).bind fun s t hst => ?_
  rw [hst.symbols]
  refine (r.encodeAll_rewritten h hst.named).bind fun xs ys hxy => ?_
  subst hxy
  exact .ok ⟨rfl, rfl, rfl⟩

end

end LabelRenaming

/-- Code with its labels renamed is assembled to the same words on the same lines, with the symbols
renamed, or fails in the same way on the same line. So are source texts without macros that have
this code. Rewriting each line is one way to rename the labels. -/
theorem labels_are_only_names (r : LabelRenaming Text.takenAsNumber) (code : List Line) :
    r.SameOutcome (assembleCode code) (assembleCode (code.map r.line)) ∧
    ∀ code', List.Forall₂ r.Rewrites code code' →
      r.SameOutcome (assembleCode code) (assembleCode code') ∧
      ∀ src src', sections src = .ok ⟨[], code⟩ → sections src' = .ok ⟨[], code'⟩ →
        r.SameOutcome (assemble src) (assemble src') := by
  have hassemble : ∀ src lines, sections src = .ok ⟨[], lines⟩ →
      assemble src = assembleCode lines := by
    intro src lines h
    rw [assemble_of_sections h, expand_nil, ok_bind]
  constructor
  · apply r.assembleCode_rewritten
    rw [List.forall₂_map_right_iff, List.forall₂_same]
    exact fun l _ => r.rewrites_line l
  · intro code' hcode
    refine ⟨r.assembleCode_rewritten hcode, ?_⟩
    intro src src' hsrc hsrc'
    rw [hassemble src code hsrc, hassemble src' code' hsrc']
    exact r.assembleCode_rewritten hcode

/-! ## A letter before each name -/

theorem Text.CanBeToken.cons_letter {name : Text} (h : name.CanBeToken) :
    CanBeToken (asciiByte 'L' :: name) := by
  refine ⟨List.cons_ne_nil _ _, ?_, rfl⟩
  rw [← List.nil_append (_ :: name), runes_append_ascii (by decide)]
  intro rune hrune
  rcases List.mem_cons.mp hrune with rfl | hrune
  · rfl
  · exact h.not_blank rune hrune

/-- The renaming that puts a letter before each name. -/
def LabelRenaming.lettered (literal : Text → Bool)
    (h : ∀ name, literal (Text.asciiByte 'L' :: name) = false) : LabelRenaming literal where
  rename name := Text.asciiByte 'L' :: name
  canBeToken := Text.CanBeToken.cons_letter
  not_literal _ := h _
  injective _ _ heq := (List.cons.inj heq).2

/-- Jumps to labels that are defined below, that end in a colon, and that look like a number or an
opcode. -/
def oddlyNamed : List Line :=
  numbered 2 [utf8 "♿ a: # on", utf8 "5:", utf8 "♿ 1", utf8 "a::", utf8 "♿:", utf8 "♿ ♿"]

/-- The same with a letter before each name. -/
def oddlyLettered : List Line :=
  numbered 2 [utf8 "♿ La: # on", utf8 "L5:", utf8 "♿ 1", utf8 "La::", utf8 "L♿:", utf8 "♿ L♿"]

/-- The letter keeps labels apart that look like numbers, opcodes and other labels. -/
theorem labels_are_only_names_lettered :
    List.Forall₂ (LabelRenaming.lettered Text.takenAsNumber fun _ => rfl).Rewrites
      oddlyNamed oddlyLettered ∧
    (LabelRenaming.lettered Text.takenAsNumber fun _ => rfl).SameOutcome
      (assemble (macroFree oddlyNamed)) (assemble (macroFree oddlyLettered)) ∧
    assemble (macroFree oddlyNamed) = .ok ⟨[⟨2, 0xC2⟩, ⟨4, 0xC1⟩, ⟨7, 0xC0⟩],
      ⟨[(utf8 "5", 2), (utf8 "a:", 3), (utf8 "♿", 3)]⟩⟩ := by
  have hrewrites : List.Forall₂ (LabelRenaming.lettered Text.takenAsNumber fun _ => rfl).Rewrites
      oddlyNamed oddlyLettered := by
    refine .cons ⟨rfl, ?_⟩ (.cons ⟨rfl, ?_⟩ (.cons ⟨rfl, ?_⟩ (.cons ⟨rfl, ?_⟩
      (.cons ⟨rfl, ?_⟩ (.cons ⟨rfl, ?_⟩ .nil)))))
    all_goals decide +kernel
  refine ⟨hrewrites, ?_, by decide +kernel⟩
  apply ((labels_are_only_names _ oddlyNamed).2 oddlyLettered hrewrites).2
  · decide +kernel
  · decide +kernel

/-- A jump to a label that begins with digits of more than 64 bits. -/
def hiddenLabel : List Line :=
  numbered 2 [utf8 "99999999999999999999x:", utf8 "♿ 99999999999999999999x"]

/-- A label that is no number, but begins with one that is too large, cannot be jumped to, and with
a letter before it, it can. -/
theorem numeral_hides_label :
    ¬ (LabelRenaming.lettered Text.isSignedDecimal fun _ => rfl).SameOutcome
      (assembleCode hiddenLabel)
      (assembleCode
        (hiddenLabel.map (LabelRenaming.lettered Text.isSignedDecimal fun _ => rfl).line)) := by
  have hnumber : assembleCode hiddenLabel =
      .error ⟨3, .literalRange (utf8 "99999999999999999999x")⟩ := by
    decide +kernel
  have hlabel : assembleCode
      (hiddenLabel.map (LabelRenaming.lettered Text.isSignedDecimal fun _ => rfl).line) =
        .ok ⟨[⟨3, 0xC0⟩], ⟨[(utf8 "L99999999999999999999x", 1)]⟩⟩ := by
    decide +kernel
  rw [hnumber, hlabel]
  exact nofun

end Glyph8
