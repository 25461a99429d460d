import Glyph8.Loader.Download

/-!
# Recorded boards

A board may answer anything: any byte or error to a read, success or an error to a write. What a
download asks of it depends on the answers. To speak about the questions without fixing the answers,
the board is wrapped into one that keeps a record of all calls (`Board.recorded`), and the download
is run on that.

A recorded run has to be tied to the plain one. For each part of a download, one lemma says three
things (`Records`). The recorded part returns what the plain one does. The calls that it adds to the
record are the ones that the board answered, in their order (`Board.Answers`). And they have one of
the shapes that are listed for the part.

The shapes are inductive families, indexed by the result: `CommandCalls`, `SyncCalls`,
`VersionCalls` and `TransferCalls`. Each constructor is a way in which the part can end. Where the
order of calls matters it is written out, and elsewhere it is said what is written and how much is
read at most. The lemmas `records_drain` to `records_transfer` open the functions of a download;
after them it is known by its shapes only.

Of the result of a download, failures are said to be no rejection, since that is the one error that
has a meaning of its own: the board has received the program and refused it (`Verdict`).
-/

namespace Glyph8

/-! ## Records -/

/-- The answer to a read as it is kept in a record. -/
def Reply.ofResult : Except BoardError UInt8 → Reply
  | .ok b => .byte b
  | .error (.failed message) => .error message
  | .error (.noResponse _) => .silence

/-- Only a byte that was read is recorded as a byte. -/
theorem Reply.ofResult_eq_byte_iff {r : Except BoardError UInt8} {b : UInt8} :
    ofResult r = .byte b ↔ r = .ok b := by
  cases r with
  | ok c => simp [ofResult]
  | error e => cases e <;> simp [ofResult]

/-- A board with a record of the calls made on it, in their order. -/
def Board.recorded {σ : Type} (b : Board σ) : Board (σ × List BoardCall) where
  read timeout s :=
    let answer := b.read timeout s.1
    (answer.1, answer.2, s.2 ++ [.read (.ofResult answer.1)])
  write data s :=
    let answer := b.write data s.1
    (answer.1, answer.2, s.2 ++ [.write data answer.1.isOk])

section

variable {σ : Type} {b : Board σ} {s s' : σ} (before : List BoardCall)

theorem Board.recorded_read {timeout : Duration} {answer : Except BoardError UInt8}
    (h : b.read timeout s = (answer, s')) :
    b.recorded.read timeout (s, before) = (answer, s', before ++ [.read (.ofResult answer)]) := by
  simp [recorded, h]

theorem Board.recorded_write_ok {data : Text} (h : b.write data s = (.ok (), s')) :
    b.recorded.write data (s, before) = (.ok (), s', before ++ [.write data true]) := by
  simp [recorded, h, Except.isOk, Except.toBool]

/-- A write that fails is recorded too, without its error. -/
theorem Board.recorded_write_error {data : Text} {e : BoardError}
    (h : b.write data s = (.error e, s')) :
    b.recorded.write data (s, before) = (.error e, s', before ++ [.write data false]) := by
  simp [recorded, h, Except.isOk, Except.toBool]

end

namespace BoardCall

/-- What a call writes, if it is a write. -/
def written? : BoardCall → Option Text
  | .write data _ => some data
  | .read _ => none

/-- What a call is answered, if it is a read. -/
def reply? : BoardCall → Option Reply
  | .read reply => some reply
  | .write _ _ => none

end BoardCall

/-- What is written in a record, whether or not the write succeeds. -/
def writes (calls : List BoardCall) : List Text := calls.filterMap BoardCall.written?

/-- The answers to the reads of a record. -/
def reads (calls : List BoardCall) : List Reply := calls.filterMap BoardCall.reply?

section

variable (calls rest : List BoardCall) (data : Text) (ok : Bool) (reply : Reply)

@[simp] theorem writes_nil : writes [] = [] := rfl

@[simp] theorem reads_nil : reads [] = [] := rfl

@[simp] theorem writes_write : writes (.write data ok :: rest) = data :: writes rest := rfl

@[simp] theorem writes_read : writes (.read reply :: rest) = writes rest := rfl

@[simp] theorem reads_write : reads (.write data ok :: rest) = reads rest := rfl

@[simp] theorem reads_read : reads (.read reply :: rest) = reply :: reads rest := rfl

@[simp] theorem writes_append : writes (calls ++ rest) = writes calls ++ writes rest :=
  List.filterMap_append

@[simp] theorem reads_append : reads (calls ++ rest) = reads calls ++ reads rest :=
  List.filterMap_append

end

/-- The board answers the calls as they are recorded, and goes from one state to another. -/
inductive Board.Answers {σ : Type} (b : Board σ) (timeout : Duration) :
    σ → List BoardCall → σ → Prop
  | nil (s : σ) : b.Answers timeout s [] s
  | read {s s₁ s' : σ} {calls : List BoardCall} {answer : Except BoardError UInt8}
      (h : b.read timeout s = (answer, s₁)) (hrest : b.Answers timeout s₁ calls s') :
      b.Answers timeout s (.read (.ofResult answer) :: calls) s'
  | write {s s₁ s' : σ} {calls : List BoardCall} {data : Text} {answer : Except BoardError Unit}
      (h : b.write data s = (answer, s₁)) (hrest : b.Answers timeout s₁ calls s') :
      b.Answers timeout s (.write data answer.isOk :: calls) s'

theorem Board.Answers.append {σ : Type} {b : Board σ} {timeout : Duration} {s s₁ s' : σ}
    {calls more : List BoardCall} (h : b.Answers timeout s calls s₁)
    (hmore : b.Answers timeout s₁ more s') : b.Answers timeout s (calls ++ more) s' := by
  induction h with
  | nil => exact hmore
  | read h _ ih => exact .read h (ih hmore)
  | write h _ ih => exact .write h (ih hmore)

/-- Answers to a record can be split where the record is. -/
theorem Board.Answers.split {σ : Type} {b : Board σ} {timeout : Duration} {s s' : σ}
    {calls more : List BoardCall} (h : b.Answers timeout s (calls ++ more) s') :
    ∃ s₁, b.Answers timeout s calls s₁ ∧ b.Answers timeout s₁ more s' := by
  induction calls generalizing s with
  | nil => exact ⟨s, .nil s, h⟩
  | cons c calls ih =>
    cases h with
    | read h hrest =>
      obtain ⟨s₁, hcalls, hmore⟩ := ih hrest
      exact ⟨s₁, .read h hcalls, hmore⟩
    | write h hrest =>
      obtain ⟨s₁, hcalls, hmore⟩ := ih hrest
      exact ⟨s₁, .write h hcalls, hmore⟩

/-- A byte in a record was read. -/
theorem Board.Answers.exists_read {σ : Type} {b : Board σ} {timeout : Duration} {s s' : σ}
    {calls : List BoardCall} {c : UInt8} (h : b.Answers timeout s (.read (.byte c) :: calls) s') :
    ∃ s₁, b.read timeout s = (.ok c, s₁) ∧ b.Answers timeout s₁ calls s' := by
  generalize hreply : Reply.byte c = reply at h
  cases h with
  | read h hrest =>
    rw [Reply.ofResult_eq_byte_iff.mp hreply.symm] at h
    exact ⟨_, h, hrest⟩

/-- A write in a record was made, whatever its answer was. -/
theorem Board.Answers.exists_write {σ : Type} {b : Board σ} {timeout : Duration} {s s' : σ}
    {calls : List BoardCall} {data : Text} {ok : Bool}
    (h : b.Answers timeout s (.write data ok :: calls) s') :
    ∃ answer s₁, b.write data s = (answer, s₁) ∧ b.Answers timeout s₁ calls s' := by
  cases h with
  | write h hrest => exact ⟨_, _, h, hrest⟩

/-- The recorded computation from `s` does what the plain one does, and the calls that it adds to
the record satisfy `P`. -/
def Records {α σ : Type} (b : Board σ) (timeout : Duration) (s : σ) (before : List BoardCall)
    (plain : α × σ) (recorded : α × σ × List BoardCall) (P : α → List BoardCall → Prop) : Prop :=
  ∃ result s' calls, plain = (result, s') ∧ recorded = (result, s', before ++ calls) ∧
    b.Answers timeout s calls s' ∧ P result calls

namespace Download

variable {σ : Type} (b : Board σ) (timeout : Duration)

/-! ## Loops of reads -/

/-- Draining writes nothing, and reads a limited number of times. -/
theorem records_drain (n : Nat) (s : σ) (before : List BoardCall) :
    Records b timeout s before (drain b timeout n s) (drain b.recorded timeout n (s, before))
      fun _ calls => writes calls = [] ∧ (reads calls).length ≤ n := by
  induction n generalizing s before with
  | zero => exact ⟨false, s, [], rfl, by simp [drain], .nil s, rfl, Nat.le_refl 0⟩
  | succ n ih =>
    rcases hread : b.read timeout s with ⟨answer, s₁⟩
    have hrecord := Board.recorded_read before hread
    cases answer with
    -- a timeout and a failure both count as quiet
    | error e =>
      refine ⟨true, s₁, [.read (.ofResult (.error e))], ?_, ?_, .read hread (.nil s₁), rfl, ?_⟩
      · simp only [drain, hread]
      · simp only [drain, hrecord]
      · simp
    | ok c =>
      obtain ⟨quiet, s', calls, hdrain, hcalls, hanswers, hwrites, hreads⟩ :=
        ih s₁ (before ++ [.read (.byte c)])
      refine ⟨quiet, s', .read (.byte c) :: calls, ?_, ?_, .read hread hanswers, hwrites, ?_⟩
      · simp only [drain, hread, hdrain]
      · simp only [drain, hrecord, Reply.ofResult, hcalls, List.append_assoc]
        rfl
      · simp only [reads_read, List.length_cons]
        omega

/-- Discarding reads a given number of times, whatever is read. -/
theorem records_discard (n : Nat) (s : σ) (before : List BoardCall) :
    ∃ calls, discard b.recorded timeout n (s, before) = (discard b timeout n s, before ++ calls) ∧
      b.Answers timeout s calls (discard b timeout n s) ∧
        writes calls = [] ∧ (reads calls).length = n := by
  induction n generalizing s before with
  | zero => exact ⟨[], by simp [discard], .nil s, rfl, rfl⟩
  | succ n ih =>
    rcases hread : b.read timeout s with ⟨answer, s'⟩
    have hrecord := Board.recorded_read before hread
    obtain ⟨calls, hcalls, hanswers, hwrites, hreads⟩ :=
      ih s' (before ++ [.read (.ofResult answer)])
    refine ⟨.read (.ofResult answer) :: calls, ?_, ?_, hwrites, ?_⟩
    · simp only [discard, hread, hrecord, hcalls, List.append_assoc]
      rfl
    · simp only [discard, hread]
      exact .read hread hanswers
    · rw [reads_read, List.length_cons, hreads]

/-! ## Commands -/

/-- The calls of a command. -/
inductive CommandCalls (cmd : UInt8) (arguments : Text) :
    Except DownloadError Unit → List BoardCall → Prop
  | failed (e : DownloadError) (ok : Bool) (rest : List BoardCall) (he : e ≠ .rejected)
      (hwrites : writes rest = []) (hreads : (reads rest).length ≤ 1) :
      CommandCalls cmd arguments (.error e) (.write (cmd :: arguments) ok :: rest)
  | acknowledged :
      CommandCalls cmd arguments (.ok ())
        [.write (cmd :: arguments) true, .read (.byte (Protocol.ackOf cmd))]

/-- A command is written once, and its answer is read at most once. -/
theorem records_command (cmd : UInt8) (arguments : Text) (s : σ) (before : List BoardCall) :
    Records b timeout s before (command b timeout cmd arguments s)
      (command b.recorded timeout cmd arguments (s, before)) (CommandCalls cmd arguments) := by
  rcases hwrite : b.write (cmd :: arguments) s with ⟨e | _, s₁⟩
  · have hrecord := Board.recorded_write_error before hwrite
    refine ⟨.error (.board e), s₁, [.write (cmd :: arguments) false], ?_, ?_,
      .write hwrite (.nil s₁), .failed _ _ _ nofun rfl (Nat.zero_le 1)⟩
    · simp only [command, hwrite]
    · simp only [command, hrecord]
  · have hrecord := Board.recorded_write_ok before hwrite
    rcases hread : b.read timeout s₁ with ⟨answer, s₂⟩
    have hrecord' := Board.recorded_read (before ++ [.write (cmd :: arguments) true]) hread
    have hanswers : b.Answers timeout s
        [.write (cmd :: arguments) true, .read (.ofResult answer)] s₂ :=
      .write hwrite (.read hread (.nil s₂))
    cases answer with
    | error e =>
      refine ⟨.error (.board e), s₂, _, ?_, ?_, hanswers,
        .failed _ _ _ nofun rfl (Nat.le_refl 1)⟩
      · simp only [command, hwrite, hread]
      · simp [command, hrecord, hrecord']
    | ok reply =>
      -- a byte that is no acknowledgement was read all the same
      by_cases hack : reply = Protocol.ackOf cmd
      · subst hack
        refine ⟨.ok (), s₂, _, ?_, ?_, hanswers, .acknowledged⟩
        · simp only [command, hwrite, hread, if_true]
        · simp [command, hrecord, hrecord']
      · refine ⟨.error (.wrongAck cmd reply), s₂, _, ?_, ?_, hanswers,
          .failed _ _ _ nofun rfl (Nat.le_refl 1)⟩
        · simp only [command, hwrite, hread, if_neg hack]
        · simp [command, hrecord, hrecord', hack]

/-! ## Synchronising -/

/-- The calls of synchronising in at most `tries` tries, after `earlier` ones. -/
inductive SyncCalls (earlier tries : Nat) : Except DownloadError Unit → List BoardCall → Prop
  | failed {calls : List BoardCall} (hwrites : writes calls = .replicate tries [Protocol.sync])
      (hreads : (reads calls).length ≤ tries) :
      SyncCalls earlier tries (.error .noSync) calls
  | synced {failures : Nat} {before late : List BoardCall} (hlt : failures < tries)
      (hbefore : writes before = .replicate failures [Protocol.sync]) (hlate : writes late = [])
      (hreads : (reads before).length + (reads late).length ≤ earlier + 2 * failures) :
      SyncCalls earlier tries (.ok ())
        (before ++ .write [Protocol.sync] true :: .read (.byte (Protocol.ackOf Protocol.sync)) ::
          late)

/-- A sync that is not acknowledged is one try more, and one late answer to discard. -/
theorem SyncCalls.retry {earlier tries : Nat} {result : Except DownloadError Unit}
    {calls rest : List BoardCall} (h : SyncCalls (earlier + 1) tries result calls) (ok : Bool)
    (hwrites : writes rest = []) (hreads : (reads rest).length ≤ 1) :
    SyncCalls earlier (tries + 1) result (.write [Protocol.sync] ok :: rest ++ calls) := by
  cases h with
  | failed hcalls hlen =>
    refine .failed ?_ ?_
    · simp [hwrites, hcalls, List.replicate_succ]
    · simp only [List.cons_append, reads_write, reads_append, List.length_append]
      omega
  | synced hlt hbefore hlate hlen =>
    -- the read of this failure and its late acknowledgement are the two more reads
    rw [← List.append_assoc]
    refine .synced (Nat.succ_lt_succ hlt) ?_ hlate ?_
    · simp [hwrites, hbefore, List.replicate_succ]
    · simp only [List.cons_append, reads_write, reads_append, List.length_append]
      omega

/-- Synchronising stops at the first sync that is acknowledged. -/
theorem records_synchronise (earlier tries : Nat) (s : σ) (before : List BoardCall) :
    Records b timeout s before (synchronise b timeout earlier tries s)
      (synchronise b.recorded timeout earlier tries (s, before)) (SyncCalls earlier tries) := by
  induction tries generalizing earlier s before with
  | zero =>
    exact ⟨.error .noSync, s, [], rfl, by simp [synchronise], .nil s, .failed rfl (Nat.le_refl 0)⟩
  | succ tries ih =>
    obtain ⟨result, s₁, calls, hcommand, hcalls, hanswers, hshape⟩ :=
      records_command b timeout Protocol.sync [] s before
    cases hshape with
    -- the acknowledgement of this try may still come, so there is one more to discard later
    | failed e ok rest he hwrites hreads =>
      obtain ⟨result, s', more, hmore, hmoreCalls, hanswers', hshape⟩ := ih (earlier + 1) s₁
        (before ++ .write [Protocol.sync] ok :: rest)
      refine ⟨result, s', .write [Protocol.sync] ok :: rest ++ more, ?_, ?_,
        hanswers.append hanswers', hshape.retry ok hwrites hreads⟩
      · simp only [synchronise, hcommand, hmore]
      · simp only [synchronise, hcalls, hmoreCalls, List.append_assoc]
    -- the acknowledgements of the earlier tries may be late, so they are read and forgotten
    | acknowledged =>
      obtain ⟨late, hlate, hanswers', hwrites, hreads⟩ := records_discard b timeout earlier s₁
        (before ++ [.write [Protocol.sync] true, .read (.byte (Protocol.ackOf Protocol.sync))])
      have hsynced : SyncCalls earlier (tries + 1) (.ok ()) ([] ++ .write [Protocol.sync] true ::
          .read (.byte (Protocol.ackOf Protocol.sync)) :: late) :=
        .synced (Nat.succ_pos tries) rfl hwrites (by simp [hreads])
      refine ⟨.ok (), discard b timeout earlier s₁, _, ?_, ?_, hanswers.append hanswers', hsynced⟩
      · simp only [synchronise, hcommand]
      · simp only [synchronise, hcalls, hlate, List.append_assoc]

/-! ## Version and program -/

/-- The calls of a version check in which the board speaks the right version. -/
def agreedCalls : List BoardCall :=
  [.write [Protocol.getVersion] true, .read (.byte (Protocol.ackOf Protocol.getVersion)),
    .read (.byte Protocol.version)]

/-- The calls of a version check. -/
inductive VersionCalls : Except DownloadError Unit → List BoardCall → Prop
  | failed (e : DownloadError) (ok : Bool) (rest : List BoardCall) (he : e ≠ .rejected)
      (hwrites : writes rest = []) (hreads : (reads rest).length ≤ 2) :
      VersionCalls (.error e) (.write [Protocol.getVersion] ok :: rest)
  | agreed : VersionCalls (.ok ()) agreedCalls

/-- The version is read only after an acknowledgement. -/
theorem records_checkVersion (s : σ) (before : List BoardCall) :
    Records b timeout s before (checkVersion b timeout s)
      (checkVersion b.recorded timeout (s, before)) VersionCalls := by
  obtain ⟨result, s₁, calls, hcommand, hcalls, hanswers, hshape⟩ :=
    records_command b timeout Protocol.getVersion [] s before
  cases hshape with
  | failed e ok rest he hwrites hreads =>
    refine ⟨.error e, s₁, _, ?_, ?_, hanswers, .failed e ok rest he hwrites (by omega)⟩
    · simp only [checkVersion, hcommand]
    · simp only [checkVersion, hcalls]
  | acknowledged =>
    rcases hread : b.read timeout s₁ with ⟨answer, s₂⟩
    have hrecord := Board.recorded_read (before ++ [.write [Protocol.getVersion] true,
      .read (.byte (Protocol.ackOf Protocol.getVersion))]) hread
    have hanswers := hanswers.append (.read hread (.nil s₂))
    cases answer with
    | error e =>
      refine ⟨.error (.versionUnread e), s₂, _, ?_, ?_, hanswers,
        .failed _ _ _ nofun rfl (Nat.le_refl 2)⟩
      · simp only [checkVersion, hcommand, hread]
      · simp [checkVersion, hcalls, hrecord]
    | ok v =>
      by_cases hv : v = Protocol.version
      · subst hv
        refine ⟨.ok (), s₂, _, ?_, ?_, hanswers, .agreed⟩
        · simp only [checkVersion, hcommand, hread, if_true]
        · simp [checkVersion, hcalls, hrecord]
      · refine ⟨.error (.wrongVersion v), s₂, _, ?_, ?_, hanswers,
          .failed _ _ _ nofun rfl (Nat.le_refl 2)⟩
        · simp only [checkVersion, hcommand, hread, if_neg hv]
        · simp [checkVersion, hcalls, hrecord, hv]

/-- What is written to announce a program. -/
def header (program : Text) : Text := Protocol.load :: Protocol.lengthBytes program.length

/-- The calls of announcing a program in which the board is ready for it. -/
def readyCalls (program : Text) : List BoardCall :=
  [.write (header program) true, .read (.byte (Protocol.ackOf Protocol.load))]

/-- The two answers to a program that are no error of the protocol. -/
structure Verdict (result : Except DownloadError Unit) (reply : Reply) : Prop where
  ok_iff : result = .ok () ↔ reply = .byte Protocol.accepted
  rejected_iff : result = .error .rejected ↔ reply = .byte Protocol.refused

/-- An answer that cannot be read is neither success nor rejection. -/
theorem verdict_unread (e : BoardError) :
    Verdict (.error (.confirmationUnread e)) (.ofResult (.error e)) := by
  constructor <;> rw [Reply.ofResult_eq_byte_iff] <;> simp

/-- The byte that is read says whether the program was taken. -/
theorem verdict_confirmation (reply : UInt8) : Verdict (confirmation reply) (.byte reply) := by
  have hne : Protocol.refused ≠ Protocol.accepted := by decide
  unfold confirmation
  by_cases haccepted : reply = Protocol.accepted
  · rw [if_pos haccepted, haccepted]
    exact ⟨by simp, by simp [hne.symm]⟩
  · rw [if_neg haccepted]
    by_cases hrefused : reply = Protocol.refused
    · rw [if_pos hrefused, hrefused]
      exact ⟨by simp [hne], by simp⟩
    · rw [if_neg hrefused]
      exact ⟨by simp [haccepted], by simp [hrefused]⟩

/-- The calls of a transfer. -/
inductive TransferCalls (program : Text) : Except DownloadError Unit → List BoardCall → Prop
  | unannounced (e : DownloadError) (ok : Bool) (rest : List BoardCall) (he : e ≠ .rejected)
      (hwrites : writes rest = []) (hreads : (reads rest).length ≤ 1) :
      TransferCalls program (.error e) (.write (header program) ok :: rest)
  | unsent (e : DownloadError) (he : e ≠ .rejected) :
      TransferCalls program (.error e) (readyCalls program ++ [.write program false])
  | answered {result : Except DownloadError Unit} {reply : Reply}
      (hverdict : Verdict result reply) :
      TransferCalls program result (readyCalls program ++ [.write program true, .read reply])

/-- The program is written only after its length was acknowledged. -/
theorem records_transfer (program : Text) (s : σ) (before : List BoardCall) :
    Records b timeout s before (transfer b timeout program s)
      (transfer b.recorded timeout program (s, before)) (TransferCalls program) := by
  obtain ⟨result, s₁, calls, hcommand, hcalls, hanswers, hshape⟩ := records_command b timeout
    Protocol.load (Protocol.lengthBytes program.length) s before
  cases hshape with
  | failed e ok rest he hwrites hreads =>
    refine ⟨.error e, s₁, _, ?_, ?_, hanswers, .unannounced e ok rest he hwrites hreads⟩
    · simp only [transfer, hcommand]
    · simp only [transfer, hcalls]
  | acknowledged =>
    have hcalls : command b.recorded timeout Protocol.load (Protocol.lengthBytes program.length)
        (s, before) = (.ok (), s₁, before ++ readyCalls program) := hcalls
    have hanswers : b.Answers timeout s (readyCalls program) s₁ := hanswers
    -- the length is acknowledged; now the program is written, which may fail
    rcases hwrite : b.write program s₁ with ⟨e | _, s₂⟩
    · have hrecord := Board.recorded_write_error (before ++ readyCalls program) hwrite
      refine ⟨.error (.board e), s₂, readyCalls program ++ [.write program false], ?_, ?_,
        hanswers.append (.write hwrite (.nil s₂)), .unsent (.board e) nofun⟩
      · simp only [transfer, hcommand, hwrite]
      · simp only [transfer, hcalls, hrecord, List.append_assoc]
    · have hrecord := Board.recorded_write_ok (before ++ readyCalls program) hwrite
      rcases hread : b.read timeout s₂ with ⟨answer, s₃⟩
      have hrecord' := Board.recorded_read
        (before ++ readyCalls program ++ [.write program true]) hread
      have hanswers : b.Answers timeout s
          (readyCalls program ++ [.write program true, .read (.ofResult answer)]) s₃ :=
        hanswers.append (.write hwrite (.read hread (.nil s₃)))
      -- the read is the last call, whatever it brings
      cases answer with
      | error e =>
        refine ⟨.error (.confirmationUnread e), s₃, _, ?_, ?_, hanswers,
          .answered (verdict_unread e)⟩
        · simp only [transfer, hcommand, hwrite, hread]
        · simp only [transfer, hcalls, hrecord, hrecord']
          simp only [List.append_assoc, List.cons_append, List.nil_append]
      | ok reply =>
        refine ⟨confirmation reply, s₃, _, ?_, ?_, hanswers,
          .answered (verdict_confirmation reply)⟩
        · simp only [transfer, hcommand, hwrite, hread]
        · simp only [transfer, hcalls, hrecord, hrecord']
          simp only [List.append_assoc, List.cons_append, List.nil_append]

end Download

end Glyph8
