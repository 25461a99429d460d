import Glyph8.Proofs.Loader.Record
import Mathlib.Data.List.Basic

/-!
# What a download asks of a board

The calls of a download have one of a few shapes (`Conversation`), for the points at which it can
end: it may fail to synchronise, to agree on the version, to announce the program or to send it, or
it gets an answer to the program. The shapes are put together from those of its parts, first for the
connection (`records_connect`) and then for all of it (`records_download`).

The main result, `transcript_orderly`, reads off what all shapes have in common, for boards that
answer anything. What is written is always a beginning of one sequence: up to three syncs, the
version request, the length and the program (`writes_prefix`). Each stage is entered only after the
board has answered the one before (`exists_synced`, `exists_agreed`, `exists_ready`). The number of
reads is bounded, so a download ends however much a board sends (`reads_le`). And a download
succeeds exactly if its last calls send the program and read that it was accepted (`eq_ok_iff`).

The bounds on reads come from the limits of each loop: draining reads at most 300 times, and each
failed sync costs one read and, if a later one succeeds, one more for its late answer.

A program without a word, or with more words than can be announced, is refused before any call
(`download_of_length`).
-/

namespace Glyph8

/-- The calls that a download makes on a board, in their order. -/
def transcript {σ : Type} (b : Board σ) (timeout : Duration) (program : Text) (s : σ) :
    List BoardCall :=
  (download b.recorded timeout program (s, [])).2.2

namespace Download

/-- The calls of waiting for a quiet board and synchronising with it at the try with number `k`. -/
structure Synced (k : Nat) (calls : List BoardCall) : Prop where
  pos : 1 ≤ k
  le : k ≤ syncTries
  writes : writes calls = .replicate k [Protocol.sync]
  reads : (reads calls).length ≤ 305
  acknowledged : ∃ earlier late, calls = earlier ++ .write [Protocol.sync] true ::
    .read (.byte (Protocol.ackOf Protocol.sync)) :: late ∧
      Glyph8.writes earlier = .replicate (k - 1) [Protocol.sync] ∧ Glyph8.writes late = []

/-- The calls of a download that makes any, by the point at which it ends. Synchronising takes at
most `k` tries. -/
inductive Conversation (program : Text) (k : Nat) :
    Except DownloadError Unit → List BoardCall → Prop
  | unsynced (e : DownloadError) (tries : Nat) (calls : List BoardCall) (he : e ≠ .rejected)
      (hle : tries ≤ k) (hwrites : writes calls = .replicate tries [Protocol.sync])
      (hreads : (reads calls).length ≤ 303) :
      Conversation program k (.error e) calls
  | unagreed (e : DownloadError) (earlier : List BoardCall) (ok : Bool) (rest : List BoardCall)
      (he : e ≠ .rejected) (hsynced : Synced k earlier) (hwrites : writes rest = [])
      (hreads : (reads rest).length ≤ 2) :
      Conversation program k (.error e) (earlier ++ .write [Protocol.getVersion] ok :: rest)
  | unannounced (e : DownloadError) (earlier : List BoardCall) (ok : Bool) (rest : List BoardCall)
      (he : e ≠ .rejected) (hsynced : Synced k earlier) (hwrites : writes rest = [])
      (hreads : (reads rest).length ≤ 1) :
      Conversation program k (.error e)
        (earlier ++ agreedCalls ++ .write (header program) ok :: rest)
  | unsent (e : DownloadError) (earlier : List BoardCall) (he : e ≠ .rejected)
      (hsynced : Synced k earlier) :
      Conversation program k (.error e)
        (earlier ++ agreedCalls ++ readyCalls program ++ [.write program false])
  | answered (result : Except DownloadError Unit) (reply : Reply) (earlier : List BoardCall)
      (hsynced : Synced k earlier) (hverdict : Verdict result reply) :
      Conversation program k result
        (earlier ++ agreedCalls ++ readyCalls program ++ [.write program true, .read reply])

/-- The calls of a connection: those of a download that ends here, or those of synchronising and of
the version check. -/
inductive ConnectCalls : Except DownloadError Unit → List BoardCall → Prop
  | failed (e : DownloadError) (k : Nat) (calls : List BoardCall) (hpos : 1 ≤ k)
      (hle : k ≤ syncTries) (h : ∀ program, Conversation program k (.error e) calls) :
      ConnectCalls (.error e) calls
  | connected (k : Nat) (earlier : List BoardCall) (hsynced : Synced k earlier) :
      ConnectCalls (.ok ()) (earlier ++ agreedCalls)

section

variable {σ : Type} (b : Board σ) (timeout : Duration)

/-- Connecting drains, synchronises and checks the version. -/
theorem records_connect (s : σ) (before : List BoardCall) :
    Records b timeout s before (connect b timeout s) (connect b.recorded timeout (s, before))
      ConnectCalls := by
  have hlimit : drainLimit = 300 := rfl
  have htries : syncTries = 3 := rfl
  obtain ⟨quiet, s₁, noise, hdrain, hnoise, hanswers, hwrites, hreads⟩ :=
    records_drain b timeout drainLimit s before
  cases quiet with
  | false =>
    refine ⟨.error .neverQuiet, s₁, noise, ?_, ?_, hanswers,
      .failed _ 1 noise (by omega) (by omega) fun _ =>
        .unsynced _ 0 noise nofun (by omega) hwrites (by omega)⟩
    · simp only [connect, hdrain]
    · simp only [connect, hnoise]
  | true =>
    obtain ⟨result, s₂, calls, hsync, hcalls, hanswers', hshape⟩ :=
      records_synchronise b timeout 0 syncTries s₁ (before ++ noise)
    have hanswers := hanswers.append hanswers'
    cases hshape with
    | failed hcallsWrites hcallsReads =>
      refine ⟨.error .noSync, s₂, noise ++ calls, ?_, ?_, hanswers,
        .failed _ syncTries _ (by omega) (by omega) fun _ =>
          .unsynced _ syncTries _ nofun (by omega) ?_ ?_⟩
      · simp only [connect, hdrain, hsync]
      · simp only [connect, hnoise, hcalls, List.append_assoc]
      · rw [writes_append, hwrites, hcallsWrites, List.nil_append]
      · rw [reads_append, List.length_append]
        omega
    | @synced failures earlier late hlt hearlier hlate hlen =>
      have hsynced : Synced (failures + 1) (noise ++ (earlier ++ .write [Protocol.sync] true ::
          .read (.byte (Protocol.ackOf Protocol.sync)) :: late)) := by
        refine ⟨by omega, hlt, ?_, ?_, noise ++ earlier, late, by simp, ?_, hlate⟩
        · simp [hwrites, hearlier, hlate, List.replicate_succ']
        · -- the noise, the two reads for each failure, and the acknowledgement
          simp only [reads_append, reads_write, reads_read, List.length_append, List.length_cons]
          omega
        · rw [writes_append, hwrites, hearlier]
          rfl
      -- from here on it only matters that these calls synchronise
      generalize earlier ++ .write [Protocol.sync] true ::
        .read (.byte (Protocol.ackOf Protocol.sync)) :: late = calls at hcalls hanswers hsynced
      obtain ⟨result, s₃, more, hversion, hmore, hanswers', hshape⟩ :=
        records_checkVersion b timeout s₂ (before ++ noise ++ calls)
      refine ⟨result, s₃, noise ++ calls ++ more, ?_, ?_, hanswers.append hanswers', ?_⟩
      · simp only [connect, hdrain, hsync, hversion]
      · simp only [connect, hnoise, hcalls, hmore]
        simp only [List.append_assoc]
      · cases hshape with
        | failed e ok rest he hrestWrites hrestReads =>
          exact .failed e (failures + 1) _ (by omega) (by omega) fun _ =>
            .unagreed e _ ok rest he hsynced hrestWrites hrestReads
        | agreed => exact .connected _ _ hsynced

variable {program : Text}

/-- A program whose length cannot be announced fails before anything is asked of the board. -/
theorem download_of_length (h : program = [] ∨ Protocol.maxProgram < program.length) (s : σ) :
    ∃ e, e ≠ .rejected ∧ download b timeout program s = (.error e, s) := by
  unfold download
  by_cases hempty : program.isEmpty = true
  · rw [if_pos hempty]
    exact ⟨.emptyProgram, nofun, rfl⟩
  · have hlen : Protocol.maxProgram < program.length :=
      h.resolve_left fun hnil => hempty (List.isEmpty_iff.mpr hnil)
    rw [if_neg hempty, if_pos hlen]
    exact ⟨.programTooLong program.length, nofun, rfl⟩

variable (hne : program ≠ []) (hlen : program.length ≤ Protocol.maxProgram)

include hne hlen

/-- A program whose length can be announced is sent once the board is connected. -/
theorem download_of_connect (s : σ) :
    download b timeout program s =
      match connect b timeout s with
      | (.error e, s) => (.error e, s)
      | (.ok (), s) => transfer b timeout program s := by
  have hempty : ¬program.isEmpty = true := fun h => hne (List.isEmpty_iff.mp h)
  unfold download
  exact (if_neg hempty).trans (if_neg (Nat.not_lt.mpr hlen))

/-- The calls of a download have one of the shapes. -/
theorem records_download (s : σ) :
    Records b timeout s [] (download b timeout program s)
      (download b.recorded timeout program (s, []))
      fun result calls => ∃ k, 1 ≤ k ∧ k ≤ syncTries ∧ Conversation program k result calls := by
  rw [download_of_connect b.recorded timeout hne hlen, download_of_connect b timeout hne hlen]
  obtain ⟨result, s₁, calls, hconnect, hcalls, hanswers, hshape⟩ := records_connect b timeout s []
  cases hshape with
  | failed e k _ hpos hle h =>
    refine ⟨.error e, s₁, calls, ?_, ?_, hanswers, k, hpos, hle, h program⟩
    · simp only [hconnect]
    · simp only [hcalls]
  | connected k earlier hsynced =>
    -- the calls of the transfer come after those of the connection, in one record
    obtain ⟨result, s₂, more, htransfer, hmore, hanswers', hshape⟩ :=
      records_transfer b timeout program s₁ ([] ++ (earlier ++ agreedCalls))
    refine ⟨result, s₂, earlier ++ agreedCalls ++ more, ?_, ?_, hanswers.append hanswers',
      k, hsynced.pos, hsynced.le, ?_⟩
    · simp only [hconnect, htransfer]
    · simp only [hcalls, hmore]
      simp only [List.append_assoc, List.nil_append]
    · cases hshape with
      | unannounced e ok rest he hwrites hreads =>
        exact .unannounced e earlier ok rest he hsynced hwrites hreads
      | unsent e he =>
        rw [← List.append_assoc]
        exact .unsent e earlier he hsynced
      | answered hverdict =>
        rw [← List.append_assoc]
        exact .answered _ _ earlier hsynced hverdict

/-- The calls of a download, with what the board did on them. -/
theorem transcript_conversation (s : σ) :
    b.Answers timeout s (transcript b timeout program s) (download b timeout program s).2 ∧
      ∃ k, 1 ≤ k ∧ k ≤ syncTries ∧
        Conversation program k (download b timeout program s).1
          (transcript b timeout program s) := by
  obtain ⟨result, s', calls, hplain, hcalls, hanswers, hshape⟩ :=
    records_download b timeout hne hlen s
  rw [transcript, hplain, hcalls]
  exact ⟨hanswers, hshape⟩

/-- A board that is not quiet is not written to. -/
theorem download_of_noisy {s : σ} (hnoisy : (drain b timeout drainLimit s).1 = false) :
    (download b timeout program s).1 = .error .neverQuiet ∧
      writes (transcript b timeout program s) = [] := by
  obtain ⟨quiet, s₁, calls, hdrain, hcalls, _, hwrites, _⟩ :=
    records_drain b timeout drainLimit s []
  rw [hdrain] at hnoisy
  cases hnoisy
  unfold transcript
  rw [download_of_connect _ timeout hne hlen, download_of_connect _ timeout hne hlen]
  simp only [connect, hdrain, hcalls]
  exact ⟨trivial, hwrites⟩

end

/-! ## What all downloads have in common -/

namespace Conversation

variable {program : Text} {k : Nat} {result : Except DownloadError Unit} {calls : List BoardCall}

/-- What is written is a beginning of the whole handshake. -/
theorem writes_prefix (h : Conversation program k result calls) :
    writes calls <+: .replicate k [Protocol.sync] ++
      [[Protocol.getVersion], header program, program] := by
  cases h with
  | unsynced e tries _ _ hle hwrites _ =>
    obtain ⟨more, rfl⟩ := Nat.exists_eq_add_of_le hle
    rw [hwrites, List.replicate_add, List.append_assoc]
    exact List.prefix_append _ _
  | unagreed e earlier ok rest _ hsynced hwrites _ =>
    exact ⟨[header program, program], by simp [hsynced.writes, hwrites]⟩
  | unannounced e earlier ok rest _ hsynced hwrites _ =>
    exact ⟨[program], by simp [hsynced.writes, hwrites, agreedCalls]⟩
  | unsent e earlier _ hsynced =>
    exact ⟨[], by simp [hsynced.writes, agreedCalls, readyCalls]⟩
  | answered _ reply earlier hsynced _ =>
    exact ⟨[], by simp [hsynced.writes, agreedCalls, readyCalls]⟩

/-- However much a board sends, no more than this is read. -/
theorem reads_le (h : Conversation program k result calls) : (reads calls).length ≤ 309 := by
  cases h with
  | unsynced e tries _ _ _ _ hreads => omega
  | unagreed e earlier ok rest _ hsynced _ hreads =>
    have := hsynced.reads
    simp only [reads_append, reads_write, List.length_append]
    omega
  | unannounced e earlier ok rest _ hsynced _ hreads =>
    have := hsynced.reads
    simp [agreedCalls]
    omega
  | unsent e earlier _ hsynced =>
    have := hsynced.reads
    simp [agreedCalls, readyCalls]
    omega
  | answered _ reply earlier hsynced _ =>
    have := hsynced.reads
    simp [agreedCalls, readyCalls]
    omega

/-- If there are more than `k` writes, the board has acknowledged the `k`-th sync. -/
theorem exists_synced (h : Conversation program k result calls) (hlt : k < (writes calls).length) :
    ∃ earlier ok rest, Synced k earlier ∧
      calls = earlier ++ .write [Protocol.getVersion] ok :: rest := by
  cases h with
  | unsynced e tries _ _ hle hwrites _ =>
    rw [hwrites, List.length_replicate] at hlt
    omega
  | unagreed e earlier ok rest _ hsynced _ _ => exact ⟨earlier, ok, rest, hsynced, rfl⟩
  | unannounced e earlier ok rest _ hsynced _ _ =>
    exact ⟨earlier, true, _, hsynced, List.append_assoc _ _ _⟩
  | unsent e earlier _ hsynced =>
    exact ⟨earlier, true, _, hsynced, by simp only [List.append_assoc]; rfl⟩
  | answered _ reply earlier hsynced _ =>
    exact ⟨earlier, true, _, hsynced, by simp only [List.append_assoc]; rfl⟩

/-- If there are two more, it speaks the right version. -/
theorem exists_agreed (h : Conversation program k result calls)
    (hlt : k + 1 < (writes calls).length) :
    ∃ earlier ok rest, writes earlier = .replicate k [Protocol.sync] ∧
      calls = earlier ++ agreedCalls ++ .write (header program) ok :: rest := by
  cases h with
  | unsynced e tries _ _ hle hwrites _ =>
    rw [hwrites, List.length_replicate] at hlt
    omega
  | unagreed e earlier ok rest _ hsynced hwrites _ => simp [hsynced.writes, hwrites] at hlt
  | unannounced e earlier ok rest _ hsynced _ _ => exact ⟨earlier, ok, rest, hsynced.writes, rfl⟩
  | unsent e earlier _ hsynced =>
    exact ⟨earlier, true, _, hsynced.writes, List.append_assoc _ _ _⟩
  | answered _ reply earlier hsynced _ =>
    exact ⟨earlier, true, _, hsynced.writes, List.append_assoc _ _ _⟩

/-- If there are three more, the board is ready for the program, and may answer it. -/
theorem cases_of_sent (h : Conversation program k result calls)
    (hlt : k + 2 < (writes calls).length) :
    ∃ earlier, writes earlier = .replicate k [Protocol.sync] ∧
      (calls = earlier ++ agreedCalls ++ readyCalls program ++ [.write program false] ∨
      ∃ reply, Verdict result reply ∧
        calls = earlier ++ agreedCalls ++ readyCalls program ++
          [.write program true, .read reply]) := by
  cases h with
  | unsynced e tries _ _ hle hwrites _ =>
    rw [hwrites, List.length_replicate] at hlt
    omega
  | unagreed e earlier ok rest _ hsynced hwrites _ => simp [hsynced.writes, hwrites] at hlt
  | unannounced e earlier ok rest _ hsynced hwrites _ =>
    simp [hsynced.writes, hwrites, agreedCalls] at hlt
  | unsent e earlier _ hsynced => exact ⟨earlier, hsynced.writes, .inl rfl⟩
  | answered _ reply earlier hsynced hverdict =>
    exact ⟨earlier, hsynced.writes, .inr ⟨reply, hverdict, rfl⟩⟩

/-- The program is sent only after its length was acknowledged. -/
theorem exists_ready (h : Conversation program k result calls)
    (hlt : k + 2 < (writes calls).length) :
    ∃ earlier ok rest,
      writes earlier = .replicate k [Protocol.sync] ++ [[Protocol.getVersion]] ∧
        calls = earlier ++ readyCalls program ++ .write program ok :: rest := by
  obtain ⟨earlier, hwrites, hcalls | ⟨reply, _, hcalls⟩⟩ := h.cases_of_sent hlt
  · exact ⟨earlier ++ agreedCalls, false, [], by simp [hwrites, agreedCalls], hcalls⟩
  · exact ⟨earlier ++ agreedCalls, true, [.read reply], by simp [hwrites, agreedCalls], hcalls⟩

/-- Only a download that reads an answer to its program succeeds or is rejected. -/
theorem exists_answer (h : Conversation program k result calls)
    (hresult : result = .ok () ∨ result = .error .rejected) :
    ∃ earlier c, writes earlier = .replicate k [Protocol.sync] ∧ Verdict result (.byte c) ∧
      calls = earlier ++ agreedCalls ++ readyCalls program ++
        [.write program true, .read (.byte c)] := by
  cases h with
  | unsynced e _ _ he | unagreed e _ _ _ he | unannounced e _ _ _ he | unsent e _ he =>
    simp [he] at hresult
  | answered _ reply earlier hsynced hverdict =>
    obtain ⟨c, rfl⟩ : ∃ c, reply = .byte c := by
      rcases hresult with hok | hrejected
      · exact ⟨_, hverdict.ok_iff.mp hok⟩
      · exact ⟨_, hverdict.rejected_iff.mp hrejected⟩
    exact ⟨earlier, c, hsynced.writes, hverdict, rfl⟩

/-- Success is the answer to a program that was sent, and nothing else. -/
theorem eq_ok_iff (h : Conversation program k result calls) :
    result = .ok () ↔ ∃ earlier,
      calls = earlier ++ [.write program true, .read (.byte Protocol.accepted)] ∧
      writes earlier =
        .replicate k [Protocol.sync] ++ [[Protocol.getVersion], header program] := by
  constructor
  · intro hok
    obtain ⟨earlier, c, hwrites, hverdict, rfl⟩ := h.exists_answer (.inl hok)
    rw [hverdict.ok_iff.mp hok]
    exact ⟨earlier ++ agreedCalls ++ readyCalls program, rfl,
      by simp [hwrites, agreedCalls, readyCalls]⟩
  · rintro ⟨before, hcalls, hbefore⟩
    have hlt : k + 2 < (writes calls).length := by simp [hcalls, hbefore]
    have hlast := congrArg List.getLast? hcalls
    obtain ⟨earlier, _, rfl | ⟨reply, hverdict, rfl⟩⟩ := h.cases_of_sent hlt
    · -- the last call would be a write and a read
      simp at hlast
    · rw [hverdict.ok_iff]
      simpa using hlast

end Conversation

end Download

open Download

/-- What can be said of the calls of a download on any board, if synchronising takes at most `k`
tries. -/
structure Orderly (program : Text) (result : Except DownloadError Unit) (calls : List BoardCall)
    (k : Nat) : Prop where
  pos : 1 ≤ k
  le : k ≤ 3
  writes_prefix : writes calls <+: .replicate k [0xEE] ++
    [[0xEF], [0xED, (program.length / 256).toUInt8, program.length.toUInt8], program]
  /-- The version is asked for after a sync whose next read is its acknowledgement. -/
  after_sync : k < (writes calls).length → ∃ earlier late ok rest,
    calls = earlier ++ .write [0xEE] true :: .read (.byte 0x11) ::
      (late ++ .write [0xEF] ok :: rest) ∧
    writes earlier = .replicate (k - 1) [0xEE] ∧ writes late = []
  /-- The program is announced after the next two reads are an acknowledgement and the version. -/
  after_version : k + 1 < (writes calls).length → ∃ earlier ok rest,
    calls = earlier ++ .write [0xEF] true :: .read (.byte 0x10) :: .read (.byte 1) ::
      .write [0xED, (program.length / 256).toUInt8, program.length.toUInt8] ok :: rest ∧
    writes earlier = .replicate k [0xEE]
  /-- The program is sent after the next read is an acknowledgement. -/
  after_load : k + 2 < (writes calls).length → ∃ earlier ok rest,
    calls = earlier ++ .write [0xED, (program.length / 256).toUInt8, program.length.toUInt8] true ::
      .read (.byte 0x12) :: .write program ok :: rest ∧
    writes earlier = .replicate k [0xEE] ++ [[0xEF]]
  eq_ok_iff : result = .ok () ↔ ∃ earlier,
    calls = earlier ++ [.write program true, .read (.byte 0x55)] ∧
    writes earlier = .replicate k [0xEE] ++
      [[0xEF], [0xED, (program.length / 256).toUInt8, program.length.toUInt8]]
  reads_le : (reads calls).length ≤ 309

/-- A download of no program or of one that is too long makes no call. Any other makes its calls in
the order of the handshake, whatever the board answers, and succeeds exactly if its last calls send
the program and read that it was accepted. -/
theorem transcript_orderly {σ : Type} (b : Board σ) (timeout : Duration) (program : Text) (s : σ) :
    (program = [] ∨ 65535 < program.length →
      (download b timeout program s).1 ≠ .ok () ∧ transcript b timeout program s = []) ∧
    (program ≠ [] → program.length ≤ 65535 →
      ∃ k, Orderly program (download b timeout program s).1
        (transcript b timeout program s) k) := by
  constructor
  · intro hlength
    obtain ⟨e, _, hplain⟩ := download_of_length b timeout hlength s
    obtain ⟨_, _, hrecorded⟩ := download_of_length b.recorded timeout hlength (s, [])
    rw [transcript, hplain, hrecorded]
    exact ⟨nofun, rfl⟩
  · intro hne hlen
    obtain ⟨_, k, hpos, hle, h⟩ := transcript_conversation b timeout hne hlen s
    -- each stage is read off the shape of the calls, by how many writes there are
    refine ⟨k, hpos, hle, h.writes_prefix, ?_, ?_, ?_, h.eq_ok_iff, h.reads_le⟩
    · intro hlt
      obtain ⟨_, ok, rest, hsynced, hcalls⟩ := h.exists_synced hlt
      obtain ⟨earlier, late, rfl, hearlier, hlate⟩ := hsynced.acknowledged
      exact ⟨earlier, late, ok, rest, hcalls.trans (List.append_assoc _ _ _), hearlier, hlate⟩
    · intro hlt
      obtain ⟨earlier, ok, rest, hearlier, hcalls⟩ := h.exists_agreed hlt
      exact ⟨earlier, ok, rest, hcalls.trans (List.append_assoc _ _ _), hearlier⟩
    · intro hlt
      obtain ⟨earlier, ok, rest, hearlier, hcalls⟩ := h.exists_ready hlt
      exact ⟨earlier, ok, rest, hcalls.trans (List.append_assoc _ _ _), hearlier⟩

/-- A board that sends a byte before it is asked, misses the first sync and then takes the program,
which is the byte of a sync. -/
def hesitantScript : Script where
  replies := [.byte 0x00, .silence, .byte 0x22, .byte 0x11, .silence, .byte 0x10, .byte 1,
    .byte 0x12, .byte 0x55]

/-- The program is not taken for a sync, and the late answer is discarded. -/
theorem transcript_orderly_hesitant :
    (download Script.board ⟨1000⟩ [0xEE] hesitantScript).1 = .ok () ∧
      writes (transcript Script.board ⟨1000⟩ [0xEE] hesitantScript) =
        [[0xEE], [0xEE], [0xEF], [0xED, 0, 1], [0xEE]] ∧
      (∃ k, Orderly [0xEE] (download Script.board ⟨1000⟩ [0xEE] hesitantScript).1
        (transcript Script.board ⟨1000⟩ [0xEE] hesitantScript) k) ∧
      transcript Script.board ⟨1000⟩ [] hesitantScript = [] :=
  ⟨rfl, rfl, (transcript_orderly Script.board ⟨1000⟩ [0xEE] hesitantScript).2 (by decide)
    (by decide), ((transcript_orderly Script.board ⟨1000⟩ [] hesitantScript).1 (.inl rfl)).2⟩

end Glyph8
