import Glyph8.Loader.Download
import Mathlib.Data.List.Sublists

/-!
# The loader firmware and its wire

A download is a conversation, and what it achieves can be said only with the other end in view. This
module is that other end: the loader firmware, as a state machine that takes one byte at a time
(`Firmware.receive`), and the wire between it and the host (`Wire`).

The firmware acknowledges syncs, of which it may miss some, says its version, and takes a program
after its length. What it expects next is its `Phase`. Lemmas about `receiveAll` say what it answers
to each thing that a download writes, from `receiveAll_sync` to `receiveAll_program`.

What the host writes arrives at once and in full. What the firmware answers is in flight until the
host reads it: it stays in order, but any byte of it can be lost and any read can time out before it
arrives. A schedule says which of this happens; where it ends, the wire is reliable. With the
schedule as a parameter, statements about all schedules are statements about all runs of the wire,
and `settle_cases` is all that is needed of one.

Answers are kept with their meaning (`Signal`). The host sees bytes only, and different answers can
be the same byte: a board may well speak version `0x55`.
-/

namespace Glyph8

/-! ## Firmware -/

/-- What the firmware expects next. -/
inductive Phase where
  | idle
  | lengthHigh
  | lengthLow (high : UInt8)
  /-- More of a program, until it has the given length. -/
  | data (length : Nat)
deriving DecidableEq

/-- The loader firmware. -/
structure Firmware where
  version : UInt8
  /-- How many syncs are not going to be acknowledged. -/
  ignoredSyncs : Nat := 0
  /-- Whether a completed program is refused. -/
  refuses : Bool := false
  phase : Phase := .idle
  program : Text := []
deriving DecidableEq

/-- What a board sends, and why. -/
inductive Signal where
  /-- Sent before the host began to write. -/
  | stale (byte : UInt8)
  | ack (command : UInt8)
  | version (number : UInt8)
  /-- The answer to a program that has been received in full. -/
  | verdict (program : Text) (accepted : Bool)
deriving DecidableEq

def Signal.byte : Signal → UInt8
  | stale byte => byte
  | ack command => Protocol.ackOf command
  | version number => number
  | verdict _ true => Protocol.accepted
  | verdict _ false => Protocol.refused

namespace Firmware

/-- Takes a byte, and answers. -/
def receive (f : Firmware) (b : UInt8) : Firmware × List Signal :=
  match f.phase with
  | .idle =>
    if b = Protocol.sync then
      if 0 < f.ignoredSyncs then ({ f with ignoredSyncs := f.ignoredSyncs - 1 }, [])
      else (f, [.ack b])
    else if b = Protocol.getVersion then (f, [.ack b, .version f.version])
    else if b = Protocol.load then ({ f with phase := .lengthHigh }, [])
    else (f, [])
  | .lengthHigh => ({ f with phase := .lengthLow b }, [])
  | .lengthLow high =>
    ({ f with phase := .data (high.toNat * 256 + b.toNat) }, [.ack Protocol.load])
  | .data length =>
    -- the program grows from what the firmware already holds; nothing clears it
    let program := f.program ++ [b]
    if program.length = length then
      ({ f with phase := .idle, program }, [.verdict program (!f.refuses)])
    else ({ f with program }, [])

def receiveAll (f : Firmware) : Text → Firmware × List Signal
  | [] => (f, [])
  | b :: rest =>
    let (next, answer) := f.receive b
    let (last, answers) := next.receiveAll rest
    (last, answer ++ answers)

variable {f : Firmware}

theorem receiveAll_cons (b : UInt8) (rest : Text) :
    f.receiveAll (b :: rest) = (((f.receive b).1.receiveAll rest).1,
      (f.receive b).2 ++ ((f.receive b).1.receiveAll rest).2) := rfl

/-- A sync is acknowledged, unless the firmware misses it. -/
theorem receiveAll_sync (h : f.phase = .idle) :
    f.receiveAll [Protocol.sync] =
      if 0 < f.ignoredSyncs then ({ f with ignoredSyncs := f.ignoredSyncs - 1 }, [])
      else (f, [.ack Protocol.sync]) := by
  unfold receiveAll receive receiveAll
  simp only [h, if_true]
  split <;> rfl

/-- The version is sent after an acknowledgement. -/
theorem receiveAll_getVersion (h : f.phase = .idle) :
    f.receiveAll [Protocol.getVersion] =
      (f, [.ack Protocol.getVersion, .version f.version]) := by
  have hne : Protocol.getVersion ≠ Protocol.sync := by decide
  unfold receiveAll receive receiveAll
  simp only [h, if_neg hne, if_true]
  rfl

/-- Two bytes hold any length that can be announced. -/
theorem toNat_lengthBytes {n : Nat} (h : n ≤ Protocol.maxProgram) :
    (n / 256).toUInt8.toNat * 256 + n.toUInt8.toNat = n := by
  have h : n ≤ 65535 := h
  have hhigh : (n / 256).toUInt8.toNat = n / 256 := by
    show (UInt8.ofNat _).toNat = _
    rw [UInt8.toNat_ofNat']
    omega
  have hlow : n.toUInt8.toNat = n % 256 := by
    show (UInt8.ofNat _).toNat = _
    rw [UInt8.toNat_ofNat']
  rw [hhigh, hlow]
  omega

/-- An announced length is read back, high byte first. -/
theorem receiveAll_load (h : f.phase = .idle) {n : Nat} (hn : n ≤ Protocol.maxProgram) :
    f.receiveAll (Protocol.load :: Protocol.lengthBytes n) =
      ({ f with phase := .data n }, [.ack Protocol.load]) := by
  have hload : f.receive Protocol.load = ({ f with phase := .lengthHigh }, []) := by
    unfold receive
    simp only [h, if_neg (show Protocol.load ≠ Protocol.sync by decide),
      if_neg (show Protocol.load ≠ Protocol.getVersion by decide), if_true]
  rw [receiveAll_cons, hload]
  show ({ f with phase := .data ((n / 256).toUInt8.toNat * 256 + n.toUInt8.toNat) },
    [Signal.ack Protocol.load]) = _
  rw [toNat_lengthBytes hn]

/-- What is left of a program is received, and answered once it is complete. -/
theorem receiveAll_data {rest : Text} (hrest : rest ≠ [])
    (h : f.phase = .data (f.program.length + rest.length)) :
    f.receiveAll rest = ({ f with phase := .idle, program := f.program ++ rest },
      [.verdict (f.program ++ rest) (!f.refuses)]) := by
  induction rest generalizing f with
  | nil => exact absurd rfl hrest
  | cons b rest ih =>
    -- only the last byte completes the program
    by_cases hlast : rest = []
    · subst hlast
      simp [receiveAll, receive, h]
    · have hlen : ¬(f.program ++ [b]).length = f.program.length + (b :: rest).length := by
        have := List.length_pos_iff.mpr hlast
        simp only [List.length_append, List.length_cons, List.length_nil]
        omega
      have hreceive : f.receive b = ({ f with program := f.program ++ [b] }, []) := by
        unfold receive
        simp only [h, if_neg hlen]
      have hmore := @ih { f with program := f.program ++ [b] } hlast (by
        simp only [h, List.length_append, List.length_cons, List.length_nil]
        congr 1
        omega)
      rw [receiveAll_cons, hreceive, hmore]
      simp only [List.append_assoc, List.singleton_append, List.nil_append]

/-- A program is received in full and answered once, if the board holds none. -/
theorem receiveAll_program {program : Text} (hne : program ≠ [])
    (h : f.phase = .data program.length) (hprogram : f.program = []) :
    f.receiveAll program =
      ({ f with phase := .idle, program }, [.verdict program (!f.refuses)]) := by
  have hdata : f.phase = .data (f.program.length + program.length) := by
    rw [h, hprogram, List.length_nil, Nat.zero_add]
  rw [receiveAll_data hne hdata, hprogram, List.nil_append]

end Firmware

/-! ## The wire -/

/-- Something that happens on the way to the host. -/
inductive WireEvent where
  /-- A byte in flight is lost. -/
  | loss (index : Nat)
  /-- A read gets the first byte in flight, if there is one. -/
  | arrival
  /-- A read times out. -/
  | delay
deriving DecidableEq

/-- What a read gets, what is still in flight afterwards, and what is going to happen then. -/
def settle : List WireEvent → List Signal → Option Signal × List Signal × List WireEvent
  | [], inFlight => (inFlight.head?, inFlight.tail, [])
  | .loss index :: events, inFlight => settle events (inFlight.eraseIdx index)
  | .arrival :: events, inFlight => (inFlight.head?, inFlight.tail, events)
  | .delay :: events, inFlight => (none, inFlight, events)

/-- A board with the loader firmware, and the wire to it. -/
structure Wire where
  firmware : Firmware
  /-- What the host has not read yet, the first to arrive first. -/
  inFlight : List Signal := []
  schedule : List WireEvent := []
  /-- What the host has read, the latest last. -/
  received : List Signal := []
deriving DecidableEq

namespace Wire

def read (timeout : Duration) (w : Wire) : Except BoardError UInt8 × Wire :=
  let (signal, inFlight, schedule) := settle w.schedule w.inFlight
  (match signal with
    | some x => .ok x.byte
    | none => .error (.noResponse timeout),
    { w with inFlight, schedule, received := w.received ++ signal.toList })

def write (data : Text) (w : Wire) : Except BoardError Unit × Wire :=
  let (firmware, answers) := w.firmware.receiveAll data
  (.ok (), { w with firmware, inFlight := w.inFlight ++ answers })

def board : Board Wire where
  read := read
  write := write

theorem write_eq (data : Text) (w : Wire) :
    board.write data w = (.ok (), { w with
      firmware := (w.firmware.receiveAll data).1
      inFlight := w.inFlight ++ (w.firmware.receiveAll data).2 }) := rfl

end Wire

/-- A read gets the first of what is in flight and has not been lost, or nothing. -/
theorem settle_cases (events : List WireEvent) (inFlight : List Signal) :
    (∃ x rest later, settle events inFlight = (some x, rest, later) ∧
      (x :: rest).Sublist inFlight) ∨
    ∃ rest later, settle events inFlight = (none, rest, later) ∧ rest.Sublist inFlight := by
  fun_induction settle events inFlight with
  | case1 inFlight | case3 events inFlight =>
    cases inFlight with
    | nil => exact .inr ⟨[], _, rfl, .refl _⟩
    | cons x rest => exact .inl ⟨x, rest, _, rfl, .refl _⟩
  | case2 index events inFlight ih =>
    have hloss := inFlight.eraseIdx_sublist index
    rcases ih with ⟨x, rest, later, heq, hsub⟩ | ⟨rest, later, heq, hsub⟩
    · exact .inl ⟨x, rest, later, heq, hsub.trans hloss⟩
    · exact .inr ⟨rest, later, heq, hsub.trans hloss⟩
  | case4 events inFlight => exact .inr ⟨inFlight, events, rfl, .refl _⟩

namespace Wire

variable {w : Wire} (timeout : Duration)

/-- The first signal to arrive is read as its byte. -/
theorem read_of_arrival {x : Signal} {rest : List Signal} {later : List WireEvent}
    (h : settle w.schedule w.inFlight = (some x, rest, later)) :
    board.read timeout w = (.ok x.byte, { w with
      inFlight := rest, schedule := later, received := w.received ++ [x] }) := by
  show w.read timeout = _
  unfold read
  rw [h]
  rfl

/-- If nothing arrives, the read times out. -/
theorem read_of_silence {rest : List Signal} {later : List WireEvent}
    (h : settle w.schedule w.inFlight = (none, rest, later)) :
    board.read timeout w = (.error (.noResponse timeout), { w with
      inFlight := rest, schedule := later }) := by
  show w.read timeout = _
  unfold read
  rw [h]
  simp

end Wire

end Glyph8
