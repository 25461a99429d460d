import Glyph8.Proofs.Loader.Firmware
import Glyph8.Proofs.Loader.Transcript

/-!
# Downloading over a reliable wire

That a download never reports a success it did not have says nothing about whether it succeeds. Here
the wire is reliable: it neither loses nor delays anything. Then a download and the firmware run in
step, and how a download ends is known for every board.

Each stage begins and ends with nothing in flight (`Wire.Clear`), so a read gets the answer to the
last write, or times out if there is none. For each part of a download one lemma says with what it
ends and which firmware it leaves, from `drain_clear` to `transfer_clear`. A board may have sent
bytes before the download began. They are drained if there are fewer than the limit; with more, the
board is taken for one that never stops.

The main result, `download_outcome`, goes through the boards: one that keeps sending, one that
ignores every sync, one that speaks another version, and one that takes the program or refuses it.
In the first three cases the board receives nothing of the program. In the last it holds all of it
and is ready for another.
-/

namespace Glyph8

namespace Wire

/-- The wire is reliable from here on; the firmware and what it has sent are as given. -/
structure Clear (w : Wire) (f : Firmware) (inFlight : List Signal) : Prop where
  firmware : w.firmware = f
  inFlight : w.inFlight = inFlight
  schedule : w.schedule = []

namespace Clear

variable {w : Wire} {f g : Firmware} {x : Signal} {rest : List Signal} (timeout : Duration)

theorem read_cons (h : w.Clear f (x :: rest)) :
    ∃ w', board.read timeout w = (.ok x.byte, w') ∧ w'.Clear f rest := by
  have hsettle : settle w.schedule w.inFlight = (some x, rest, []) := by
    rw [h.schedule, h.inFlight]
    rfl
  exact ⟨_, read_of_arrival timeout hsettle, h.firmware, rfl, rfl⟩

/-- With nothing in flight a read times out. -/
theorem read_nil (h : w.Clear f []) :
    ∃ w', board.read timeout w = (.error (.noResponse timeout), w') ∧ w'.Clear f [] := by
  have hsettle : settle w.schedule w.inFlight = (none, [], []) := by
    rw [h.schedule, h.inFlight]
    rfl
  exact ⟨_, read_of_silence timeout hsettle, h.firmware, rfl, rfl⟩

/-- After a write, exactly its answers are in flight. -/
theorem write (h : w.Clear f []) {data : Text} {answers : List Signal}
    (hreceive : f.receiveAll data = (g, answers)) :
    ∃ w', board.write data w = (.ok (), w') ∧ w'.Clear g answers := by
  refine ⟨_, write_eq data w, ?_, ?_, h.schedule⟩
  · simp only [h.firmware, hreceive]
  · simp only [h.firmware, hreceive, h.inFlight, List.nil_append]

end Clear

end Wire

namespace Download

variable {w : Wire} {f g : Firmware} (timeout : Duration)

/-- Draining ends quietly if fewer bytes are in flight than it reads. -/
theorem drain_clear {inFlight : List Signal} (h : w.Clear f inFlight) (n : Nat) :
    (n ≤ inFlight.length → (drain Wire.board timeout n w).1 = false) ∧
      (inFlight.length < n →
        ∃ w', drain Wire.board timeout n w = (true, w') ∧ w'.Clear f []) := by
  induction n generalizing w inFlight with
  | zero => exact ⟨fun _ => rfl, nofun⟩
  | succ n ih =>
    cases inFlight with
    | nil =>
      obtain ⟨w', hread, hclear⟩ := h.read_nil timeout
      refine ⟨nofun, fun _ => ⟨w', ?_, hclear⟩⟩
      simp only [drain, hread]
    | cons x rest =>
      obtain ⟨w', hread, hclear⟩ := h.read_cons timeout
      obtain ⟨hnoisy, hquiet⟩ := ih hclear
      simp only [drain, hread, List.length_cons, Nat.add_le_add_iff_right,
        Nat.add_lt_add_iff_right]
      exact ⟨hnoisy, hquiet⟩

/-- Reads that time out change nothing. -/
theorem discard_clear (h : w.Clear f []) (n : Nat) :
    (discard Wire.board timeout n w).Clear f [] := by
  induction n generalizing w with
  | zero => exact h
  | succ n ih =>
    obtain ⟨w', hread, hclear⟩ := h.read_nil timeout
    simp only [discard, hread]
    exact ih hclear

/-- A command that is acknowledged succeeds, and leaves what comes after the acknowledgement. -/
theorem command_of_ack (h : w.Clear f []) {cmd : UInt8} {arguments : Text} {rest : List Signal}
    (hreceive : f.receiveAll (cmd :: arguments) = (g, .ack cmd :: rest)) :
    ∃ w', command Wire.board timeout cmd arguments w = (.ok (), w') ∧ w'.Clear g rest := by
  obtain ⟨w₁, hwrite, hclear⟩ := h.write hreceive
  obtain ⟨w₂, hread, hclear⟩ := hclear.read_cons timeout
  refine ⟨w₂, ?_, hclear⟩
  simp only [command, hwrite, hread, Signal.byte, if_true]

/-- A command without an answer times out. -/
theorem command_of_silence (h : w.Clear f []) {cmd : UInt8} {arguments : Text}
    (hreceive : f.receiveAll (cmd :: arguments) = (g, [])) :
    ∃ w', command Wire.board timeout cmd arguments w =
      (.error (.board (.noResponse timeout)), w') ∧ w'.Clear g [] := by
  obtain ⟨w₁, hwrite, hclear⟩ := h.write hreceive
  obtain ⟨w₂, hread, hclear⟩ := hclear.read_nil timeout
  refine ⟨w₂, ?_, hclear⟩
  simp only [command, hwrite, hread]

/-- Synchronising succeeds if the firmware ignores fewer syncs than there are tries. -/
theorem synchronise_clear (h : w.Clear f []) (hidle : f.phase = .idle) (earlier tries : Nat) :
    (tries ≤ f.ignoredSyncs → ∃ w',
      synchronise Wire.board timeout earlier tries w = (.error .noSync, w') ∧
        w'.Clear { f with ignoredSyncs := f.ignoredSyncs - tries } []) ∧
    (f.ignoredSyncs < tries → ∃ w',
      synchronise Wire.board timeout earlier tries w = (.ok (), w') ∧
        w'.Clear { f with ignoredSyncs := 0 } []) := by
  induction tries generalizing earlier f w with
  | zero => exact ⟨fun _ => ⟨w, rfl, h⟩, nofun⟩
  | succ tries ih =>
    have hreceive := Firmware.receiveAll_sync hidle
    by_cases hignored : 0 < f.ignoredSyncs
    · -- no answer, so this try fails and leaves nothing behind
      rw [if_pos hignored] at hreceive
      obtain ⟨w', hcommand, hclear⟩ := command_of_silence timeout h hreceive
      obtain ⟨hfails, hsyncs⟩ := ih hclear hidle (earlier + 1)
      simp only [synchronise, hcommand]
      refine ⟨fun hle => ?_, fun hlt => hsyncs (by simp only; omega)⟩
      obtain ⟨w'', hsync, hclear⟩ := hfails (by simp only; omega)
      rw [show f.ignoredSyncs - (tries + 1) = f.ignoredSyncs - 1 - tries by omega]
      exact ⟨w'', hsync, hclear⟩
    · rw [if_neg hignored] at hreceive
      obtain ⟨w', hcommand, hclear⟩ := command_of_ack timeout h hreceive
      have hzero : f.ignoredSyncs = 0 := by omega
      have hf : { f with ignoredSyncs := 0 } = f := by rw [← hzero]
      refine ⟨fun hle => by omega, fun _ => ⟨discard Wire.board timeout earlier w', ?_, ?_⟩⟩
      · simp only [synchronise, hcommand]
      · -- no acknowledgement is late, so the reads for late ones find nothing
        rw [hf]
        exact discard_clear timeout hclear earlier

/-- The version check compares what the board says. -/
theorem checkVersion_clear (h : w.Clear f []) (hidle : f.phase = .idle) :
    ∃ w', checkVersion Wire.board timeout w =
      (if f.version = Protocol.version then .ok () else .error (.wrongVersion f.version), w') ∧
        w'.Clear f [] := by
  obtain ⟨w₁, hcommand, hclear⟩ := command_of_ack timeout h (Firmware.receiveAll_getVersion hidle)
  obtain ⟨w₂, hread, hclear⟩ := hclear.read_cons timeout
  refine ⟨w₂, ?_, hclear⟩
  simp only [checkVersion, hcommand, hread, Signal.byte]

/-- How connecting to a board ends that is quiet in time. -/
theorem connect_clear {inFlight : List Signal} (h : w.Clear f inFlight) (hidle : f.phase = .idle)
    (hlt : inFlight.length < drainLimit) :
    (syncTries ≤ f.ignoredSyncs → ∃ w', connect Wire.board timeout w = (.error .noSync, w') ∧
      w'.Clear { f with ignoredSyncs := f.ignoredSyncs - syncTries } []) ∧
    (f.ignoredSyncs < syncTries → ∃ w', connect Wire.board timeout w =
        (if f.version = Protocol.version then .ok () else .error (.wrongVersion f.version), w') ∧
      w'.Clear { f with ignoredSyncs := 0 } []) := by
  obtain ⟨w₁, hdrain, hclear⟩ := (drain_clear timeout h drainLimit).2 hlt
  obtain ⟨hfails, hsyncs⟩ := synchronise_clear timeout hclear hidle 0 syncTries
  constructor
  · intro hignored
    obtain ⟨w₂, hsync, hclear⟩ := hfails hignored
    refine ⟨w₂, ?_, hclear⟩
    simp only [connect, hdrain, hsync]
  · intro hignored
    obtain ⟨w₂, hsync, hclear⟩ := hsyncs hignored
    obtain ⟨w₃, hcheck, hclear⟩ := checkVersion_clear timeout hclear hidle
    refine ⟨w₃, ?_, hclear⟩
    simp only [connect, hdrain, hsync, hcheck]

/-- A transfer ends as the board decides, and the board holds the program in both cases. -/
theorem transfer_clear (h : w.Clear f []) (hidle : f.phase = .idle) (hprogram : f.program = [])
    {program : Text} (hne : program ≠ []) (hlen : program.length ≤ Protocol.maxProgram) :
    ∃ w', transfer Wire.board timeout program w =
      (if f.refuses then .error .rejected else .ok (), w') ∧
        w'.Clear { f with program } [] := by
  obtain ⟨w₁, hcommand, hclear⟩ := command_of_ack timeout h (Firmware.receiveAll_load hidle hlen)
  obtain ⟨w₂, hwrite, hclear⟩ := hclear.write (Firmware.receiveAll_program hne rfl hprogram)
  obtain ⟨w₃, hread, hclear⟩ := hclear.read_cons timeout
  refine ⟨w₃, ?_, ?_⟩
  · simp only [transfer, hcommand, hwrite, hread]
    cases f.refuses <;> rfl
  · rw [← hidle] at hclear
    exact hclear

end Download

/-- A reliable wire to an idle board that holds no program and has sent `stale` before. -/
def Wire.reliable (version : UInt8) (ignoredSyncs : Nat) (refuses : Bool) (stale : Text) :
    Wire where
  firmware := { version, ignoredSyncs, refuses }
  inFlight := stale.map .stale

open Download

/-- A board that keeps sending is not written to. Otherwise, a board that ignores every sync, or
speaks another version, receives nothing of the program. In the remaining case the board holds the
program and is ready for another, and the download reports whether the program was refused. -/
theorem download_outcome (version : UInt8) (ignoredSyncs : Nat) (refuses : Bool) (stale : Text)
    (timeout : Duration) {program : Text} (hne : program ≠ []) (hlen : program.length ≤ 65535) :
    (300 ≤ stale.length →
      (download Wire.board timeout program (.reliable version ignoredSyncs refuses stale)).1 =
          .error .neverQuiet ∧
        writes (transcript Wire.board timeout program
          (.reliable version ignoredSyncs refuses stale)) = []) ∧
    (stale.length < 300 → 3 ≤ ignoredSyncs → ∃ after,
      download Wire.board timeout program (.reliable version ignoredSyncs refuses stale) =
          (.error .noSync, after) ∧
        after.firmware.program = []) ∧
    (stale.length < 300 → ignoredSyncs < 3 → version ≠ 1 → ∃ after,
      download Wire.board timeout program (.reliable version ignoredSyncs refuses stale) =
          (.error (.wrongVersion version), after) ∧
        after.firmware.program = []) ∧
    (stale.length < 300 → ignoredSyncs < 3 → version = 1 → ∃ after,
      download Wire.board timeout program (.reliable version ignoredSyncs refuses stale) =
          (if refuses then .error .rejected else .ok (), after) ∧
        after.firmware.program = program ∧ after.firmware.phase = .idle ∧ after.inFlight = []) := by
  have hstart : (Wire.reliable version ignoredSyncs refuses stale).Clear
      { version, ignoredSyncs, refuses } (stale.map .stale) := ⟨rfl, rfl, rfl⟩
  have hlength : (stale.map Signal.stale).length = stale.length := List.length_map ..
  refine ⟨?_, ?_, ?_, ?_⟩
  · intro hstale
    refine download_of_noisy _ timeout hne hlen ((drain_clear timeout hstart drainLimit).1 ?_)
    rw [hlength]
    exact hstale
  · intro hstale hignored
    obtain ⟨after, hconnect, hclear⟩ :=
      (connect_clear timeout hstart rfl (by rw [hlength]; exact hstale)).1 hignored
    refine ⟨after, ?_, by rw [hclear.firmware]⟩
    rw [download_of_connect _ timeout hne hlen, hconnect]
  · intro hstale hignored hversion
    obtain ⟨after, hconnect, hclear⟩ :=
      (connect_clear timeout hstart rfl (by rw [hlength]; exact hstale)).2 hignored
    refine ⟨after, ?_, by rw [hclear.firmware]⟩
    have hversion : ¬version = Protocol.version := hversion
    simp only [download_of_connect _ timeout hne hlen, hconnect, if_neg hversion]
  · intro hstale hignored hversion
    obtain ⟨w, hconnect, hclear⟩ :=
      (connect_clear timeout hstart rfl (by rw [hlength]; exact hstale)).2 hignored
    obtain ⟨after, htransfer, hclear⟩ := transfer_clear timeout hclear rfl rfl hne hlen
    refine ⟨after, ?_, by rw [hclear.firmware], by rw [hclear.firmware], hclear.inFlight⟩
    -- the board is ready for a program, and takes this one whether or not it refuses it
    have hversion : version = Protocol.version := hversion
    simp only [download_of_connect _ timeout hne hlen, hconnect, if_pos hversion]
    exact htransfer

/-- The four ends: a board that never stops sending, one that ignores all three syncs, one with
another version, and one that answers at the third sync and refuses the program. -/
theorem download_outcome_each :
    (download Wire.board ⟨1000⟩ [0xE2] (.reliable 1 0 false (.replicate 300 0))).1 =
        .error .neverQuiet ∧
      (∃ after, download Wire.board ⟨1000⟩ [0xE2] (.reliable 1 3 false [1, 2, 3]) =
        (.error .noSync, after) ∧ after.firmware.program = []) ∧
      (∃ after, download Wire.board ⟨1000⟩ [0xE2] (.reliable 2 1 false [1, 2, 3]) =
        (.error (.wrongVersion 2), after) ∧ after.firmware.program = []) ∧
      ∃ after, download Wire.board ⟨1000⟩ [0x07, 0xA5, 0xE2] (.reliable 1 2 true [1, 2, 3]) =
        (.error .rejected, after) ∧ after.firmware.program = [0x07, 0xA5, 0xE2] ∧
          after.firmware.phase = .idle ∧ after.inFlight = [] :=
  ⟨((download_outcome 1 0 false (.replicate 300 0) ⟨1000⟩ (by decide) (by decide)).1
      (by rw [List.length_replicate])).1,
    (download_outcome 1 3 false [1, 2, 3] ⟨1000⟩ (by decide) (by decide)).2.1 (by decide)
      (by decide),
    (download_outcome 2 1 false [1, 2, 3] ⟨1000⟩ (by decide) (by decide)).2.2.1 (by decide)
      (by decide) (by decide),
    (download_outcome 1 2 true [1, 2, 3] ⟨1000⟩ (by decide) (by decide)).2.2.2 (by decide)
      (by decide) rfl⟩

end Glyph8
