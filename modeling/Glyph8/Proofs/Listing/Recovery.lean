import Glyph8.Proofs.Listing.Reassembly
import Glyph8.Proofs.Text.Columns
import Glyph8.Proofs.Text.Rows
import Glyph8.Proofs.Text.Sinks

/-!
# Listings lose nothing

A listing has a line for each word of an executable. The line shows the word four times, so to say:
by its position, by its bits, as it is written in a source file, and by its mnemonic. This module
says that each of these is right, and that a listing is enough to get the executable back.

The line is made for readers, in columns that are filled up with spaces, and the number of spaces
depends on the word. So it is described by its tokens instead: the position, the bits and the tokens
of the source column (`tokens_row`). The mnemonic stands behind the comment sign and gives no token.
The source column differs from a source file for unassigned system calls only, which are shown with
a question mark (`sourceColumn_decode`).

The bits give the word back, so `recover` reads the executable from the second token of each line
(`recover_flatten_rows`). The source column is an instruction line that is encoded to the word in
canonical spelling, whatever the labels and the position (`encode_sourceTokens`).

A listing is written line by line, and a write may be refused. Then the lines before it have been
written and nothing else (`writeAll_of_refused`). All of this is put together in `listing_lossless`.
-/

namespace Glyph8

theorem IsToken.canBeToken {cs : List Char} (h : IsToken cs) : (Text.ofChars cs).CanBeToken := by
  have hrunes := Text.runes_ofChars cs
  refine ⟨?_, ?_, h.isComment_eq⟩
  · intro hnil
    rw [hnil] at hrunes
    exact h.ne_nil (List.map_eq_nil_iff.mp hrunes.symm)
  · rw [hrunes]
    intro r hr
    obtain ⟨c, hc, rfl⟩ := List.mem_map.mp hr
    exact h.not_blank c hc

namespace Listing

/-! ## The source column -/

/-- The tokens of a word in the source column: those of its instruction in source form, and for an
unassigned system call its symbol and its number after a question mark. -/
def sourceTokens (w : Word) : List Text :=
  if w.isUnassigned then [utf8 "🤖", utf8 "?3"] else Line.tokens (Word.decode w).source

theorem tokens_source (i : Instruction) : Line.tokens i.source = i.spelling.map Text.ofChars := by
  rw [i.source_eq, tokens_spaced i.isToken_of_mem_spelling]

/-- Assigned instructions are shown as in a source file. -/
theorem sourceColumn_of_assigned {i : Instruction} (h : i.isAssigned = true) :
    sourceColumn i = i.source := by
  unfold sourceColumn
  cases i with
  | syscall id => exact if_pos h
  | _ => rfl

/-- All unassigned system calls are shown alike. -/
theorem decode_of_isUnassigned : ∀ w : Word, w.isUnassigned = true →
    sourceColumn (Word.decode w) = spaced [utf8 "🤖", utf8 "?3"] := by
  refine forall_byte ?_
  decide +kernel

/-- A question mark and a number make a token as well. -/
theorem canBeToken_of_mem_sourceTokens {w : Word} {t : Text} (h : t ∈ sourceTokens w) :
    t.CanBeToken := by
  unfold sourceTokens at h
  split at h
  · have htokens : [utf8 "🤖", utf8 "?3"] = [['🤖'], ['?', '3']].map Text.ofChars := rfl
    rw [htokens] at h
    obtain ⟨cs, hcs, rfl⟩ := List.mem_map.mp h
    have hall : ∀ cs ∈ [['🤖'], ['?', '3']], IsToken cs := by
      rw [List.forall_mem_cons, List.forall_mem_singleton]
      refine ⟨Instruction.isToken_opcode .syscall, List.cons_ne_nil _ _, ?_, by decide⟩
      rw [List.forall_mem_cons, List.forall_mem_singleton]
      exact ⟨by decide, by decide⟩
    exact (hall cs hcs).canBeToken
  · exact Line.canBeToken_of_mem_tokens h

/-- The source column has its tokens, with single spaces between them. -/
theorem sourceColumn_decode (w : Word) :
    sourceColumn (Word.decode w) = spaced (sourceTokens w) := by
  unfold sourceTokens
  by_cases hw : w.isUnassigned = true
  · rw [if_pos hw, decode_of_isUnassigned w hw]
  · have hassigned := isAssigned_decode w
    rw [Bool.eq_false_iff.mpr hw] at hassigned
    rw [if_neg hw, sourceColumn_of_assigned hassigned, tokens_source, ← Instruction.source_eq]

theorem words_sourceColumn (w : Word) : (sourceColumn (Word.decode w)).words = sourceTokens w := by
  rw [sourceColumn_decode, Text.words_spaced_tokens fun _ => canBeToken_of_mem_sourceTokens]

/-- The source column is encoded to the word in canonical spelling. -/
theorem encode_sourceTokens (w : Word) :
    ∃ head operands, sourceTokens w = head :: operands ∧
      ∀ (symbols : SymbolTable) (pc : Nat) (num : Int),
        InstructionLine.encode symbols pc ⟨num, head, operands⟩ =
          if w.isUnassigned then .error ⟨num, .unknownSyscall (utf8 "?3")⟩
          else .ok w.canonical := by
  have hassigned := isAssigned_decode w
  simp only [InstructionLine.encode_eq]
  unfold sourceTokens
  by_cases hw : w.isUnassigned = true
  · rw [if_pos hw]
    refine ⟨_, _, rfl, ?_⟩
    intro symbols pc num
    rw [if_pos hw]
    unfold Instruction.ofTokens Instruction.read
    -- the question mark is no symbol of a system call, so the operand is unknown
    have hop : Opcode.ofToken? (utf8 "🤖") = some .syscall := by decide
    simp only [hop]
    rfl
  · rw [Bool.eq_false_iff.mpr hw] at hassigned
    rw [if_neg hw, tokens_source]
    refine ⟨_, _, rfl, ?_⟩
    intro symbols pc num
    rw [if_neg hw, Instruction.ofTokens_spelling symbols pc hassigned, ← word_decode]
    rfl

/-! ## One line -/

/-- The columns of a line, with the spaces between them. -/
theorem row_eq (position : Nat) (w : Word) :
    row position w = (Text.decimal position).alignRight 4 ++ Text.space :: (Text.space :: (w.bits ++
      Text.space :: (Text.space :: ((sourceColumn (Word.decode w)).alignLeft 16 ++
        Text.space :: ([Line.commentMark] ++ Text.space :: (Word.decode w).mnemonic))))) ++
      [Text.newline] := by
  unfold row
  simp only [List.append_assoc, List.cons_append]
  rfl

/-- The words of a line, of which those from the comment sign on are no tokens. -/
theorem words_row (position : Nat) (w : Word) :
    (row position w).words = Text.decimal position :: w.bits :: sourceTokens w ++
      [Line.commentMark] :: (Word.decode w).mnemonic.words := by
  have hmark : Text.words [Line.commentMark] = [[Line.commentMark]] := by decide
  rw [row_eq, Text.words_append_newline, Text.words_alignRight_append,
    (Text.canBeToken_decimal position).words, Text.words_space_cons, Text.words_append_space,
    w.canBeToken_bits.words, Text.words_space_cons, Text.words_alignLeft_append,
    words_sourceColumn, Text.words_append_space, hmark]
  rfl

theorem tokens_row (position : Nat) (w : Word) :
    Line.tokens (row position w) = Text.decimal position :: w.bits :: sourceTokens w := by
  have htokens : ∀ t ∈ Text.decimal position :: w.bits :: sourceTokens w, t.CanBeToken := by
    rw [List.forall_mem_cons, List.forall_mem_cons]
    exact ⟨Text.canBeToken_decimal position, w.canBeToken_bits,
      fun _ => canBeToken_of_mem_sourceTokens⟩
  unfold Line.tokens
  rw [words_row, List.takeWhile_append_of_pos, List.takeWhile_cons_of_neg (by decide),
    List.append_nil]
  intro t ht
  rw [(htokens t ht).not_comment]
  rfl

theorem isRow_row (position : Nat) (w : Word) : (row position w).IsRow := by
  refine ⟨_, ?_, row_eq position w⟩
  have hposition := (Text.canBeToken_decimal position).newline_not_mem
  have hsource : Text.newline ∉ sourceColumn (Word.decode w) := by
    rw [sourceColumn_decode]
    apply Text.newline_not_mem_spaced
    intro t ht
    exact (canBeToken_of_mem_sourceTokens ht).newline_not_mem
  have hspace : Text.newline ≠ Text.space := by decide
  have hmark : Text.newline ≠ Line.commentMark := by decide
  simp only [List.mem_append, List.mem_cons, List.not_mem_nil, not_or]
  exact ⟨Text.newline_not_mem_alignRight hposition 4, hspace, hspace,
    w.canBeToken_bits.newline_not_mem, hspace, hspace, Text.newline_not_mem_alignLeft hsource 16,
    hspace, ⟨hmark, not_false⟩, hspace, newline_not_mem_mnemonic w⟩

/-! ## All lines -/

theorem isRow_of_mem_rows {code : List Word} {line : Text} (h : line ∈ rows code) : line.IsRow := by
  obtain ⟨⟨w, position⟩, _, rfl⟩ := List.mem_map.mp h
  exact isRow_row position w

theorem length_rows (code : List Word) : (rows code).length = code.length := by
  unfold rows
  rw [List.length_map, List.length_zipIdx]

/-- The line of each word is at its index, with the position one higher. -/
theorem getElem?_rows (code : List Word) (i : Nat) :
    (rows code)[i]? = (code[i]?).map (row (i + 1)) := by
  unfold rows
  rw [List.getElem?_map, List.getElem?_zipIdx, Option.map_map, Nat.add_comm]
  rfl

/-- The executable of a listing, by the bits on its lines. -/
def recover (listing : Text) : List Word :=
  listing.endedLines.map fun line => Word.ofBits ((Line.tokens line).getD 1 [])

/-- The executable is read back from its listing. -/
theorem recover_flatten_rows (code : List Word) : recover (rows code).flatten = code := by
  unfold recover
  rw [Text.endedLines_flatten fun _ => isRow_of_mem_rows]
  apply List.ext_getElem?
  intro i
  rw [List.getElem?_map, getElem?_rows, Option.map_map]
  have hword : ∀ w : Word,
      Word.ofBits ((Line.tokens (row (i + 1) w)).getD 1 []) = w := by
    intro w
    rw [tokens_row]
    exact w.ofBits_bits
  cases code[i]? with
  | none => rfl
  | some w => exact congrArg some (hword w)

/-! ## Writing -/

/-- Without a limit everything is written. -/
theorem writeAll_of_unlimited {out : Sink} (h : out.room = none) (ts : List Text) :
    writeAll ts out = (true, out.pushAll ts) := by
  induction ts generalizing out with
  | nil => rfl
  | cons t ts ih =>
    unfold writeAll
    rw [Sink.write?_of_unlimited h]
    exact ih (Sink.room_push_of_unlimited h t)

/-- Writing ends at the first text that is refused. -/
theorem writeAll_of_refused {out out' : Sink} {before after : List Text} {t : Text}
    (hbefore : before.foldlM Sink.write? out = some out') (ht : out'.write? t = none) :
    writeAll (before ++ t :: after) out = (false, out') := by
  induction before generalizing out with
  | nil =>
    obtain rfl : out = out' := Option.some.inj hbefore
    rw [List.nil_append]
    unfold writeAll
    rw [ht]
  | cons first before ih =>
    rw [List.foldlM_cons] at hbefore
    obtain ⟨next, hnext, hrest⟩ := Option.bind_eq_some_iff.mp hbefore
    rw [List.cons_append]
    unfold writeAll
    rw [hnext]
    exact ih hrest

/-! ## Listings -/

/-- What a line of a listing says about a word at a position. -/
structure Shows (line : Text) (position : Nat) (w : Word) : Prop where
  /-- The tokens are the position, the eight bits, and those of the source column. -/
  tokens : Line.tokens line =
    Text.decimal position :: (utf8 "0b" ++ w.bitDigits) :: sourceTokens w
  /-- The tokens of the source column are encoded to the word in canonical spelling, whatever the
  labels; only those of an unassigned system call are not. -/
  encodes : ∃ head operands, sourceTokens w = head :: operands ∧
    ∀ (symbols : SymbolTable) (pc : Nat) (num : Int),
      InstructionLine.encode symbols pc ⟨num, head, operands⟩ =
        if w.isUnassigned then .error ⟨num, .unknownSyscall (utf8 "?3")⟩ else .ok w.canonical

/-- Every line shows its word. -/
theorem shows_row (position : Nat) (w : Word) : Shows (row position w) position w := by
  refine ⟨?_, encode_sourceTokens w⟩
  rw [tokens_row, w.bits_eq]

end Listing

/-- A listing that is written without a limit has a line for each word and nothing else. Each line
shows its position and its word, the source column is encoded to the word in canonical spelling, and
the executable is recovered from the listing. If the write of the line with index `k` is refused and
all before it succeed, then writing the listing fails, and what was written are the first `k` lines.
-/
theorem listing_lossless (code : List Word) :
    (∀ out : Sink, out.room = none → ∃ out', Listing.write code out = (true, out') ∧
      (out'.since out).endedLines = Listing.rows code ∧ (out'.since out).unended = [] ∧
      (out'.since out).endedLines.length = code.length ∧
      (∀ i w, code[i]? = some w →
        ∃ line, (out'.since out).endedLines[i]? = some line ∧ Listing.Shows line (i + 1) w) ∧
      Listing.recover (out'.since out) = code) ∧
    ∀ (out out' : Sink) (k : Nat) (line : Text), (Listing.rows code)[k]? = some line →
      ((Listing.rows code).take k).foldlM Sink.write? out = some out' → out'.write? line = none →
      Listing.write code out = (false, out') ∧
        out'.since out = ((Listing.rows code).take k).flatten := by
  refine ⟨?_, ?_⟩
  · intro out hroom
    refine ⟨_, Listing.writeAll_of_unlimited hroom (Listing.rows code), ?_⟩
    have hrows : ∀ row ∈ Listing.rows code, row.IsRow := fun _ => Listing.isRow_of_mem_rows
    rw [Sink.since_pushAll, Text.endedLines_flatten hrows]
    refine ⟨rfl, Text.unended_flatten hrows, Listing.length_rows code, ?_,
      Listing.recover_flatten_rows code⟩
    intro i w hw
    refine ⟨Listing.row (i + 1) w, ?_, Listing.shows_row (i + 1) w⟩
    rw [Listing.getElem?_rows, hw]
    rfl
  · intro out out' k line hline hbefore hrefused
    -- the refused line stands between the lines that were written and the rest
    have hsplit : (Listing.rows code).take k ++ line :: (Listing.rows code).drop (k + 1) =
        Listing.rows code := by
      obtain ⟨hk, rfl⟩ := List.getElem?_eq_some_iff.mp hline
      rw [← List.drop_eq_getElem_cons hk, List.take_append_drop]
    refine ⟨?_, ?_⟩
    · unfold Listing.write
      rw [← hsplit]
      exact Listing.writeAll_of_refused hbefore hrefused
    · rw [Sink.eq_pushAll_of_foldlM hbefore, Sink.since_pushAll]

/-- A jump by negative zero, a system call with an unused bit, and an unassigned one. -/
def unevenCode : List Word := [0xD0, 0xFE, 0xE3]

/-- A sink that has room for the first two lines of the listing. -/
def narrowSink : Sink := { room := some 120 }

/-- The three words are read back, also the two that assembling would change or refuse. -/
theorem listing_lossless_uneven :
    (∃ out', Listing.write unevenCode {} = (true, out') ∧
      Listing.recover (out'.since {}) = unevenCode ∧
      ∃ line, (out'.since {}).endedLines[2]? = some line ∧ Listing.Shows line 3 0xE3) ∧
    ∃ out', Listing.write unevenCode narrowSink = (false, out') ∧
      out'.since narrowSink = Listing.row 1 0xD0 ++ Listing.row 2 0xFE := by
  obtain ⟨hwritten, hrefused⟩ := listing_lossless unevenCode
  refine ⟨?_, ?_⟩
  · obtain ⟨out', hwrite, _, _, _, hshows, hrecover⟩ := hwritten {} rfl
    exact ⟨out', hwrite, hrecover, hshows 2 0xE3 rfl⟩
  · obtain ⟨out', hbefore⟩ : ∃ out',
        ((Listing.rows unevenCode).take 2).foldlM Sink.write? narrowSink = some out' :=
      Option.isSome_iff_exists.mp (by decide +kernel)
    have hfull : out'.write? (Listing.row 3 0xE3) = none := by
      rw [Sink.eq_pushAll_of_foldlM hbefore]
      decide +kernel
    obtain ⟨hwrite, hsince⟩ := hrefused narrowSink out' 2 _ rfl hbefore hfull
    exact ⟨out', hwrite, hsince.trans (by decide +kernel)⟩

end Glyph8
