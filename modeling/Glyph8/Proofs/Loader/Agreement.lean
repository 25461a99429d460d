import Glyph8.Proofs.Loader.Firmware
import Glyph8.Proofs.Loader.Transcript

/-!
# Agreement over a wire that loses and delays

A download should not report success unless the board holds the program. On a wire that loses bytes
and delivers them late, this is not obvious: an answer may belong to an earlier question. While a
download synchronises, it sends several syncs, and the acknowledgement of each may arrive in the
place of any later answer. Nor do the bytes tell answers apart, since a board may speak a version
whose number is the byte of an acknowledgement.

The calls of a download are known from the transcripts. Here they are played against the firmware,
and after each stage it is said what can still be in flight (`Wire.Carries`). Bytes stay in order,
so this is a list of which some may be missing.

- While synchronising, any number of acknowledgements of a sync can be in flight
  (`carries_of_syncs`).
- The version check clears the wire (`carries_of_agreed`). It waits for two bytes, neither of which
  is the acknowledgement of a sync. So they are the last two in flight, and nothing is left behind
  them.
- From then on each answer is the only one in flight, so it is the answer to the last question
  (`carries_of_answered`).

The main result, `download_agreement`, says this of every schedule of losses and delays. It does not
say that a download succeeds; on a bad wire it may not.
-/

namespace Glyph8

/-! ## What can be in flight -/

/-- If an element other than `a` comes first, it comes after the copies of `a`. -/
theorem sublist_of_replicate_append {α : Type} {a x : α} {n : Nat} {rest l : List α} (hx : x ≠ a)
    (h : (x :: rest).Sublist (.replicate n a ++ l)) : (x :: rest).Sublist l := by
  induction n with
  | zero => exact h
  | succ n ih =>
    rw [List.replicate_succ, List.cons_append] at h
    cases h with
    | cons _ h => exact ih h
    | cons_cons _ _ => exact absurd rfl hx

namespace Wire

/-- The firmware is as given, and nothing is in flight but what is left of the given signals. -/
structure Carries (w : Wire) (f : Firmware) (signals : List Signal) : Prop where
  firmware : w.firmware = f
  inFlight : w.inFlight.Sublist signals

namespace Carries

variable {timeout : Duration} {w w' : Wire} {f g : Firmware} {signals answers : List Signal}

/-- Reading adds nothing to what is in flight. -/
theorem read (h : w.Carries f signals) {answer : Except BoardError UInt8}
    (hread : board.read timeout w = (answer, w')) : w'.Carries f signals := by
  rcases settle_cases w.schedule w.inFlight with
    ⟨x, rest, later, hsettle, hsub⟩ | ⟨rest, later, hsettle, hsub⟩
  · rw [read_of_arrival timeout hsettle] at hread
    cases hread
    exact ⟨h.firmware, ((List.sublist_cons_self x rest).trans hsub).trans h.inFlight⟩
  · rw [read_of_silence timeout hsettle] at hread
    cases hread
    exact ⟨h.firmware, hsub.trans h.inFlight⟩

/-- A byte that is read is that of a signal; only what comes after it is left. -/
theorem read_byte (h : w.Carries f signals) {c : UInt8}
    (hread : board.read timeout w = (.ok c, w')) :
    ∃ x rest, x.byte = c ∧ (x :: rest).Sublist signals ∧ w'.Carries f rest ∧
      w'.received = w.received ++ [x] := by
  rcases settle_cases w.schedule w.inFlight with
    ⟨x, rest, later, hsettle, hsub⟩ | ⟨rest, later, hsettle, _⟩
  · rw [read_of_arrival timeout hsettle] at hread
    cases hread
    exact ⟨x, rest, rfl, hsub.trans h.inFlight, ⟨h.firmware, .refl _⟩, rfl⟩
  · rw [read_of_silence timeout hsettle] at hread
    cases hread

/-- If there is but one signal, a byte that is read is its byte. -/
theorem read_only {x : Signal} (h : w.Carries f [x]) {c : UInt8}
    (hread : board.read timeout w = (.ok c, w')) :
    x.byte = c ∧ w'.Carries f [] ∧ w'.received = w.received ++ [x] := by
  obtain ⟨y, rest, hbyte, hsub, hcarries, hreceived⟩ := h.read_byte hread
  have heq : y :: rest = [x] := hsub.eq_of_length_le (Nat.le_add_left 1 rest.length)
  cases heq
  exact ⟨hbyte, hcarries, hreceived⟩

/-- Writing adds the answers of the firmware. -/
theorem write (h : w.Carries f signals) {data : Text}
    (hreceive : f.receiveAll data = (g, answers)) {answer : Except BoardError Unit}
    (hwrite : board.write data w = (answer, w')) : w'.Carries g (signals ++ answers) := by
  rw [write_eq, h.firmware, hreceive] at hwrite
  cases hwrite
  exact ⟨rfl, h.inFlight.append (.refl answers)⟩

end Carries

/-! ## Stages of a download -/

variable {timeout : Duration} {w w' : Wire} {f : Firmware} {calls : List BoardCall}

/-- While nothing but syncs is written, nothing but acknowledgements of syncs is in flight. -/
theorem carries_of_syncs (hidle : f.phase = .idle) (h : board.Answers timeout w calls w')
    (hwrites : ∀ data ∈ writes calls, data = [Protocol.sync]) {ignored n : Nat}
    (hw : w.Carries { f with ignoredSyncs := ignored } (.replicate n (.ack Protocol.sync))) :
    ∃ ignored n,
      w'.Carries { f with ignoredSyncs := ignored } (.replicate n (.ack Protocol.sync)) := by
  induction h generalizing ignored n with
  | nil => exact ⟨ignored, n, hw⟩
  | read hread _ ih => exact ih hwrites (hw.read hread)
  | @write _ _ _ calls data _ hwrite hrest ih =>
    have hdata : data = [Protocol.sync] := hwrites data List.mem_cons_self
    have hcalls : ∀ data ∈ writes calls, data = [Protocol.sync] :=
      fun data hmem => hwrites data (List.mem_cons_of_mem _ hmem)
    subst hdata
    have hreceive := @Firmware.receiveAll_sync { f with ignoredSyncs := ignored } hidle
    -- a sync that is ignored adds nothing, any other adds one acknowledgement
    by_cases hignored : 0 < ignored
    · rw [if_pos hignored] at hreceive
      have hnext := hw.write hreceive hwrite
      rw [List.append_nil] at hnext
      exact ih hcalls hnext
    · rw [if_neg hignored] at hreceive
      have hnext := hw.write hreceive hwrite
      rw [← List.replicate_succ'] at hnext
      exact ih hcalls hnext

/-- A board that passes the version check speaks the right version, and has nothing in flight. -/
theorem carries_of_agreed (hidle : f.phase = .idle) {n : Nat}
    (hw : w.Carries f (.replicate n (.ack Protocol.sync)))
    (h : board.Answers timeout w (Download.agreedCalls ++ calls) w') :
    f.version = Protocol.version ∧
      ∃ w₁, w₁.Carries f [] ∧ board.Answers timeout w₁ calls w' := by
  obtain ⟨_, w₁, hwrite, h⟩ := h.exists_write
  have hcarries := hw.write (Firmware.receiveAll_getVersion hidle) hwrite
  obtain ⟨w₂, hread, h⟩ := h.exists_read
  obtain ⟨x, rest, hx, hsub, hcarries, _⟩ := hcarries.read_byte hread
  obtain ⟨w₃, hread, h⟩ := h.exists_read
  obtain ⟨y, rest', hy, hsub', hcarries, _⟩ := hcarries.read_byte hread
  -- the first byte is not that of a late acknowledgement
  have hne : x ≠ .ack Protocol.sync := by
    rintro rfl
    exact absurd hx (by decide)
  have hlast : (x :: y :: rest').Sublist [.ack Protocol.getVersion, .version f.version] :=
    (hsub'.cons_cons x).trans (sublist_of_replicate_append hne hsub)
  have heq := hlast.eq_of_length_le (Nat.le_add_left 2 rest'.length)
  cases heq
  exact ⟨hy, w₃, hcarries, h⟩

/-- A board that acknowledges the announced length and answers the program holds it. -/
theorem carries_of_answered (hidle : f.phase = .idle) (hprogram : f.program = [])
    {program : Text} (hne : program ≠ []) (hlen : program.length ≤ Protocol.maxProgram)
    (hw : w.Carries f []) {c : UInt8}
    (h : board.Answers timeout w
      (Download.readyCalls program ++ [.write program true, .read (.byte c)]) w') :
    w'.firmware.program = program ∧ (Signal.verdict program (!f.refuses)).byte = c ∧
      w'.received.getLast? = some (.verdict program (!f.refuses)) := by
  obtain ⟨_, w₁, hwrite, h⟩ := h.exists_write
  have hcarries := hw.write (Firmware.receiveAll_load hidle hlen) hwrite
  obtain ⟨w₂, hread, h⟩ := h.exists_read
  obtain ⟨_, hcarries, _⟩ := hcarries.read_only hread
  obtain ⟨_, w₃, hwrite, h⟩ := h.exists_write
  have hcarries := hcarries.write (Firmware.receiveAll_program hne rfl hprogram) hwrite
  obtain ⟨w₄, hread, h⟩ := h.exists_read
  obtain ⟨hbyte, hcarries, hreceived⟩ := hcarries.read_only hread
  cases h
  refine ⟨by rw [hcarries.firmware], hbyte, ?_⟩
  rw [hreceived, List.getLast?_concat]

/-- A wire to an idle board that holds no program, with nothing in flight. -/
def start (version : UInt8) (ignoredSyncs : Nat) (refuses : Bool) (schedule : List WireEvent) :
    Wire where
  firmware := { version, ignoredSyncs, refuses }
  schedule

end Wire

open Download

/-- A download that succeeds or is rejected has read the answer to its program, which the board then
holds. -/
theorem answer_of_result {version : UInt8} {ignoredSyncs : Nat} {refuses : Bool}
    {schedule : List WireEvent} {timeout : Duration} {program : Text}
    {result : Except DownloadError Unit} {after : Wire}
    (h : download Wire.board timeout program (.start version ignoredSyncs refuses schedule) =
      (result, after))
    (hresult : result = .ok () ∨ result = .error .rejected) :
    version = Protocol.version ∧ after.firmware.program = program ∧
      after.received.getLast? = some (.verdict program (!refuses)) ∧
      Verdict result (.byte (Signal.verdict program (!refuses)).byte) := by
  by_cases hlength : program = [] ∨ Protocol.maxProgram < program.length
  · -- nothing was asked of the board
    obtain ⟨e, he, hdownload⟩ := download_of_length Wire.board timeout hlength
      (.start version ignoredSyncs refuses schedule)
    cases hdownload.symm.trans h
    simp [he] at hresult
  · obtain ⟨hne, hlen⟩ := not_or.mp hlength
    obtain ⟨hanswers, k, _, _, hcalls⟩ := transcript_conversation Wire.board timeout hne
      (Nat.not_lt.mp hlen) (.start version ignoredSyncs refuses schedule)
    rw [h] at hanswers hcalls
    -- a result of this kind was read as the answer to the program
    obtain ⟨earlier, c, hwrites, hverdict, heq⟩ := hcalls.exists_answer hresult
    rw [heq, List.append_assoc, List.append_assoc] at hanswers
    obtain ⟨w, hearlier, hanswers⟩ := hanswers.split
    -- at the start nothing is in flight, not one acknowledgement
    have hstart : (Wire.start version ignoredSyncs refuses schedule).Carries
        { version, ignoredSyncs, refuses } (.replicate 0 (.ack Protocol.sync)) := ⟨rfl, .refl _⟩
    have hsyncs : ∀ data ∈ writes earlier, data = [Protocol.sync] := fun data hmem =>
      List.eq_of_mem_replicate (hwrites ▸ hmem)
    obtain ⟨_, _, hcarries⟩ := @Wire.carries_of_syncs _ _ _ { version, refuses } _ rfl
      hearlier hsyncs _ _ hstart
    obtain ⟨hversion, w, hcarries, hanswers⟩ := Wire.carries_of_agreed rfl hcarries hanswers
    obtain ⟨hprogram, hbyte, hlast⟩ :=
      Wire.carries_of_answered rfl rfl hne (Nat.not_lt.mp hlen) hcarries hanswers
    exact ⟨hversion, hprogram, hlast, hbyte ▸ hverdict⟩

/-- Whatever the wire loses and delays, a download that succeeds has spoken with a board of the
right version, which holds the program, and the last byte it read is the board's answer to all of
the program. A download that is rejected was refused by a board that holds the program. -/
theorem download_agreement (version : UInt8) (ignoredSyncs : Nat) (refuses : Bool)
    (schedule : List WireEvent) (timeout : Duration) (program : Text)
    {result : Except DownloadError Unit} {after : Wire}
    (h : download Wire.board timeout program (.start version ignoredSyncs refuses schedule) =
      (result, after)) :
    (result = .ok () → version = 1 ∧ after.firmware.program = program ∧
      after.received.getLast? = some (.verdict program true)) ∧
    (result = .error .rejected → after.firmware.program = program ∧
      after.received.getLast? = some (.verdict program false)) := by
  constructor
  · intro hok
    obtain ⟨hversion, hprogram, hlast, hverdict⟩ := answer_of_result h (.inl hok)
    -- the byte that was read is that of the verdict, and the two verdicts have different bytes
    have hbyte := Reply.byte.inj (hverdict.ok_iff.mp hok)
    cases refuses with
    | true => exact absurd hbyte (by show Protocol.refused ≠ Protocol.accepted; decide)
    | false => exact ⟨hversion, hprogram, hlast⟩
  · intro hrejected
    obtain ⟨_, hprogram, hlast, hverdict⟩ := answer_of_result h (.inr hrejected)
    have hbyte := Reply.byte.inj (hverdict.rejected_iff.mp hrejected)
    cases refuses with
    | true => exact ⟨hprogram, hlast⟩
    | false => exact absurd hbyte (by show Protocol.accepted ≠ Protocol.refused; decide)

/-- The acknowledgement of the first sync is late, that of the second is lost, and the board then
takes the program or refuses it. -/
theorem download_agreement_late :
    ((download Wire.board ⟨1000⟩ [0x07, 0xE2]
        (.start 1 0 false [.delay, .delay, .arrival, .loss 0, .delay])).1 = .ok () ∧
      (download Wire.board ⟨1000⟩ [0x07, 0xE2]
        (.start 1 0 false [.delay, .delay, .arrival, .loss 0, .delay])).2.received.getLast? =
          some (.verdict [0x07, 0xE2] true)) ∧
    ((download Wire.board ⟨1000⟩ [0x07, 0xE2]
        (.start 1 0 true [.delay, .delay, .arrival, .loss 0, .delay])).1 = .error .rejected ∧
      (download Wire.board ⟨1000⟩ [0x07, 0xE2]
        (.start 1 0 true [.delay, .delay, .arrival, .loss 0, .delay])).2.received.getLast? =
          some (.verdict [0x07, 0xE2] false)) :=
  ⟨⟨by decide, ((download_agreement 1 0 false [.delay, .delay, .arrival, .loss 0, .delay] ⟨1000⟩
      [0x07, 0xE2] rfl).1 (by decide)).2.2⟩,
    by decide, ((download_agreement 1 0 true [.delay, .delay, .arrival, .loss 0, .delay] ⟨1000⟩
      [0x07, 0xE2] rfl).2 (by decide)).2⟩

end Glyph8
