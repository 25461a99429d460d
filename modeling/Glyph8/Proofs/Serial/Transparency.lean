import Glyph8.Serial.Link

/-!
# Links hide fragments and interrupts

A serial device may take a write in pieces, may be interrupted at any point, and may fail. A link is
what hides this from a download: it repeats what was interrupted and goes on with what is left of a
write. This module says that it does so without losing or repeating a byte.

During one call of a link the device is asked for one thing again and again, so all that it does in
that call is a list of answers (`Answers`). Before each call of a session these may be any, with one
condition: an interrupted call moves no byte (`Harmless`). Without it a byte could be lost on the
way, and no link could do anything about it.

Whatever the answers are, the bytes that the device takes during a write are the beginning of what
was to be written, and all of it if the write succeeds (`Delivers`). A read gives what the first
read of the device that is not interrupted gave (`Awaits`). Both are proved by induction on the
answers, and both also say how many calls were made to the device, so that the calls of a session
can be added up.

`Served` puts this together for one call of an open link. A closed link makes no call to the device
(`perform_of_closed`), and stays closed. The main result, `link_hides_fragments`, is about every
call of every session.
-/

namespace Glyph8

/-! ## Answers of a device -/

/-- How a device answers during one call of a link. Once a list is used up, reads bring nothing and
writes take everything. -/
structure Answers where
  reads : List ReadReply := []
  writes : List WriteReply := []
  timeoutError : Option UartError := none
  closeError : Option UartError := none

/-- Whether interrupted calls move no byte in either direction. -/
structure Answers.Harmless (a : Answers) : Prop where
  reads : ∀ r ∈ a.reads, r.error = some .interrupted → r.count = 0
  writes : ∀ r ∈ a.writes, r.error = some .interrupted → r.count = 0

/-- The bytes that come with the answer to a read. -/
def ReadReply.bytes (r : ReadReply) : Text := if r.count = 0 then [] else [r.byte]

/-- What the answer to a read means: its error, or its byte, or that nothing came in time. -/
def ReadReply.outcome (timeout : Duration) (r : ReadReply) : Except LinkError UInt8 :=
  match r.error, r.bytes with
  | some e, _ => .error (.device e)
  | none, b :: _ => .ok b
  | none, [] => .error (.noResponse timeout)

/-- The error that the answer to a write leaves no way around: one that is not an interrupt, or that
the device takes nothing without giving a reason. -/
def WriteReply.failure? (r : WriteReply) : Option LinkError :=
  match r.error with
  | none => if r.count = 0 then some .nothingTaken else none
  | some .interrupted => none
  | some e => some (.device e)

namespace Uart

/-! ## Writing -/

/-- The bytes that a device takes of texts that it is offered one after the other. -/
def taken : List WriteReply → List Text → Text
  | _, [] => []
  | [], data :: offers => data ++ taken [] offers
  | r :: replies, data :: offers => data.take r.count ++ taken replies offers

/-- What a write of `data` amounts to that made the given offers to a device. -/
structure Delivers (replies : List WriteReply) (data : Text) (offers : List Text)
    (result : Except LinkError Unit) : Prop where
  /-- No byte is left out or sent twice. -/
  leading : taken replies offers <+: data
  complete : result = .ok () → taken replies offers = data
  /-- An answer without a way around is the last one, and its error is the result. -/
  stops : ∀ k r e, k < offers.length → replies[k]? = some r → r.failure? = some e →
    result = .error e ∧ offers.length = k + 1
  /-- There is no other reason to fail. -/
  reason : ∀ e, result = .error e →
    ∃ k r, offers.length = k + 1 ∧ replies[k]? = some r ∧ r.failure? = some e

theorem delivers_nothing (replies : List WriteReply) : Delivers replies [] [] (.ok ()) where
  leading := List.prefix_rfl
  complete _ := rfl
  stops _ _ _ hk := absurd hk (Nat.not_lt_zero _)
  reason _ h := nomatch h

/-- Without answers to come, the device takes everything. -/
theorem delivers_rest (data : Text) : Delivers [] data [data] (.ok ()) where
  leading := by simp [taken]
  complete _ := by simp [taken]
  stops _ _ _ _ hget := nomatch hget
  reason _ h := nomatch h

/-- An answer that there is no way around ends the write, with what it took. -/
theorem delivers_failure {r : WriteReply} {e : LinkError} (h : r.failure? = some e)
    (replies : List WriteReply) (data : Text) :
    Delivers (r :: replies) data [data] (.error e) where
  leading := by
    show data.take r.count ++ [] <+: data
    rw [List.append_nil]
    exact List.take_prefix r.count data
  complete hok := nomatch hok
  stops k r' e' hk hget hfail := by
    obtain rfl : k = 0 := Nat.lt_one_iff.mp hk
    obtain rfl : r = r' := Option.some.inj hget
    rw [h] at hfail
    exact ⟨by rw [Option.some.inj hfail], rfl⟩
  reason e' herr := ⟨0, r, rfl, rfl, by rw [h, Except.error.inj herr]⟩

/-- An answer that there is a way around: what it took is done, and the rest is written by the
offers that follow. -/
theorem Delivers.cons {r : WriteReply} {replies : List WriteReply} {data : Text}
    {offers : List Text} {result : Except LinkError Unit} (hr : r.failure? = none)
    (h : Delivers replies (data.drop r.count) offers result) :
    Delivers (r :: replies) data (data :: offers) result where
  leading := by
    obtain ⟨rest, hrest⟩ := h.leading
    refine ⟨rest, ?_⟩
    show data.take r.count ++ taken replies offers ++ rest = data
    rw [List.append_assoc, hrest, List.take_append_drop]
  complete hok := by
    show data.take r.count ++ taken replies offers = data
    rw [h.complete hok, List.take_append_drop]
  stops k r' e hk hget hfail := by
    cases k with
    | zero =>
      obtain rfl : r = r' := Option.some.inj hget
      rw [hr] at hfail
      cases hfail
    | succ k =>
      obtain ⟨hresult, hlength⟩ := h.stops k r' e (Nat.lt_of_succ_lt_succ hk) hget hfail
      exact ⟨hresult, by rw [List.length_cons, hlength]⟩
  reason e herr := by
    obtain ⟨k, r', hlength, hget, hfail⟩ := h.reason e herr
    exact ⟨k + 1, r', by rw [List.length_cons, hlength], hget, hfail⟩

section

variable {u : Uart} {r : WriteReply} {rest : List WriteReply} {data : Text}

/-- The write ends at an answer that there is no way around. -/
theorem writePast_of_failure (hdata : data ≠ []) {e : LinkError} (h : r.failure? = some e) :
    u.writePast (r :: rest) data = (.error e, { u.record (.write data) with writes := rest }) := by
  obtain ⟨b, bs, rfl⟩ := List.exists_cons_of_ne_nil hdata
  unfold WriteReply.failure? at h
  unfold writePast
  split at h
  · next herror =>
    split at h
    · next hcount =>
      obtain rfl := Option.some.inj h
      simp only [herror, if_pos hcount]
    · cases h
  · cases h
  · next herror =>
    obtain rfl := Option.some.inj h
    simp only [herror]

/-- After an answer that there is a way around, the rest is written as if nothing had happened. -/
theorem writePast_of_progress (hdata : data ≠ []) (h : r.failure? = none)
    (hr : r.error = some .interrupted → r.count = 0) :
    u.writePast (r :: rest) data =
      (u.record (.write data)).writePast rest (data.drop r.count) := by
  obtain ⟨b, bs, rfl⟩ := List.exists_cons_of_ne_nil hdata
  unfold WriteReply.failure? at h
  conv => lhs; unfold writePast
  split at h
  · next herror =>
    split at h
    · cases h
    · next hcount => simp only [herror, if_neg hcount]
  · next herror => simp only [herror, hr herror, List.drop_zero]
  · cases h

end

/-- Writing past interrupts delivers the data. -/
theorem writePast_delivers (u : Uart) (replies : List WriteReply) (data : Text)
    (h : ∀ r ∈ replies, r.error = some .interrupted → r.count = 0) :
    ∃ offers result, Delivers replies data offers result ∧
      u.writePast replies data = (result, { u with
        writes := replies.drop offers.length
        calls := (offers.map UartCall.write).reverse ++ u.calls }) := by
  induction replies generalizing u data with
  | nil =>
    cases data with
    | nil => exact ⟨[], .ok (), delivers_nothing [], rfl⟩
    | cons b data => exact ⟨[b :: data], .ok (), delivers_rest (b :: data), rfl⟩
  | cons r rest ih =>
    by_cases hdata : data = []
    · subst hdata
      exact ⟨[], .ok (), delivers_nothing (r :: rest), rfl⟩
    cases hr : r.failure? with
    | some e =>
      exact ⟨[data], .error e, delivers_failure hr rest data, writePast_of_failure hdata hr⟩
    | none =>
      -- what is left is written as a text of its own, with the answers that are left
      obtain ⟨offers, result, hdelivers, heq⟩ := ih (u.record (.write data)) (data.drop r.count)
        fun r hr => h r (List.mem_cons_of_mem _ hr)
      refine ⟨data :: offers, result, hdelivers.cons hr, ?_⟩
      rw [writePast_of_progress hdata hr (h r (.head _)), heq]
      simp [record]

/-! ## Reading -/

/-- What a read amounts to that took `k` interrupts to wait out. -/
structure Awaits (replies : List ReadReply) (k : Nat) : Prop where
  interrupted : ∀ j < k, ∃ r, replies[j]? = some r ∧ r.error = some .interrupted
  ended : (replies.getD k {}).error ≠ some .interrupted
  /-- All that the device brought came with the last answer. -/
  brought : (replies.take (k + 1)).flatMap ReadReply.bytes = (replies.getD k {}).bytes

/-- Reading past interrupts waits for the first read that is none. -/
theorem readPast_awaits (u : Uart) (replies : List ReadReply)
    (h : ∀ r ∈ replies, r.error = some .interrupted → r.count = 0) :
    ∃ k, Awaits replies k ∧
      u.readPast replies = (replies.getD k {}, { u with
        reads := replies.drop (k + 1)
        calls := List.replicate (k + 1) (.read 1) ++ u.calls }) := by
  induction replies generalizing u with
  | nil => exact ⟨0, ⟨fun j hj => absurd hj (Nat.not_lt_zero j), nofun, rfl⟩, rfl⟩
  | cons r rest ih =>
    by_cases hr : r.error = some .interrupted
    · obtain ⟨k, hk, heq⟩ := ih (u.record (.read 1)) fun r hr => h r (List.mem_cons_of_mem _ hr)
      refine ⟨k + 1, ⟨?_, hk.ended, ?_⟩, ?_⟩
      · intro j hj
        cases j with
        | zero => exact ⟨r, rfl, hr⟩
        | succ j => exact hk.interrupted j (Nat.lt_of_succ_lt_succ hj)
      · -- an interrupted read brings no byte, so none is lost by reading again
        have hnothing : r.bytes = [] := if_pos (h r (.head _) hr)
        rw [List.take_succ_cons, List.flatMap_cons, hnothing, List.nil_append, hk.brought]
        rfl
      · have hstep : u.readPast (r :: rest) = (u.record (.read 1)).readPast rest := by
          simp [readPast, hr]
        rw [hstep, heq]
        simp [record, List.replicate_succ']
    · refine ⟨0, ⟨fun j hj => absurd hj (Nat.not_lt_zero j), hr, ?_⟩, ?_⟩
      · simp
      · simp [readPast, hr, record]

end Uart

/-! ## Links -/

/-- What can be asked of a link. -/
inductive LinkCall where
  | read (timeout : Duration)
  | write (data : Text)
  | close
deriving DecidableEq

/-- What a link that is closed says to a call. -/
def LinkCall.refusal : LinkCall → Except LinkError (Option UInt8)
  | .read _ => .error .readClosed
  | .write _ => .error .writeClosed
  | .close => .ok none

/-- What a call of an open link amounts to: which calls it makes to a device that gives the answers,
in order, and its result. Only a read gives a byte back. -/
inductive Served (a : Answers) :
    LinkCall → List UartCall → Except LinkError (Option UInt8) → Prop where
  | written {data : Text} {offers : List Text} {result : Except LinkError Unit} :
      Uart.Delivers a.writes data offers result →
      Served a (.write data) (offers.map .write) (result.map fun _ => none)
  | timeoutRefused {timeout : Duration} {e : UartError} : a.timeoutError = some e →
      Served a (.read timeout) [.setTimeout timeout] (.error (.device e))
  | awaited {timeout : Duration} {k : Nat} : a.timeoutError = none → Uart.Awaits a.reads k →
      Served a (.read timeout) (.setTimeout timeout :: List.replicate (k + 1) (.read 1))
        (((a.reads.getD k {}).outcome timeout).map some)
  | closed : a.closeError = none → Served a .close [.close] (.ok none)
  | closeFailed {e : UartError} : a.closeError = some e →
      Served a .close [.close] (.error (.closing e))

/-- The bytes that the reads among calls to a device bring. -/
def received (replies : List ReadReply) (made : List UartCall) : Text :=
  (replies.take (made.count (.read 1))).flatMap ReadReply.bytes

/-- The bytes that a call of a link gives back. -/
def returned : Except LinkError (Option UInt8) → Text
  | .ok (some b) => [b]
  | _ => []

/-- What the device brings is given back, once and in full, unless it comes with an error. -/
theorem Served.received_eq_returned {a : Answers} {c : LinkCall} {made : List UartCall}
    {result : Except LinkError (Option UInt8)} (h : Served a c made result)
    (hresult : ∀ e, result ≠ .error (.device e)) : received a.reads made = returned result := by
  cases h with
  | @written data offers result hdelivers =>
    have hreads : (offers.map UartCall.write).count (.read 1) = 0 :=
      List.count_eq_zero.mpr (by simp)
    have hnone : returned (result.map fun _ => none) = [] := by cases result <;> rfl
    rw [received, hreads, hnone]
    rfl
  -- an error of the device is excluded
  | timeoutRefused ht => exact absurd rfl (hresult _)
  | @awaited timeout k ht hk =>
    have hreads :
        (UartCall.setTimeout timeout :: List.replicate (k + 1) (.read 1)).count (.read 1) =
          k + 1 := by
      rw [List.count_cons_of_ne (by nofun), List.count_replicate_self]
    -- what the interrupted reads brought is nothing, so the last answer is all there is
    rw [received, hreads, hk.brought]
    generalize a.reads.getD k {} = r at hresult ⊢
    unfold ReadReply.outcome at hresult ⊢
    cases herror : r.error with
    | some e =>
      rw [herror] at hresult
      exact absurd rfl (hresult e)
    | none =>
      unfold ReadReply.bytes
      by_cases hcount : r.count = 0 <;> simp [hcount, Except.map, returned]
  | closed hc => rfl
  | closeFailed hc => rfl

namespace Link

/-- The link with a device that is going to give the answers. -/
def facing (l : Link) (a : Answers) : Link :=
  { l with uart := { l.uart with
      reads := a.reads
      writes := a.writes
      timeoutError := a.timeoutError
      closeError := a.closeError } }

/-- Carries out a call on a link whose device gives the answers. -/
def perform (l : Link) (a : Answers) : LinkCall → Except LinkError (Option UInt8) × Link
  | .read timeout => (((l.facing a).read timeout).1.map some, ((l.facing a).read timeout).2)
  | .write data => (((l.facing a).write data).1.map fun _ => none, ((l.facing a).write data).2)
  | .close => ((l.facing a).close.1.map fun _ => none, (l.facing a).close.2)

/-- A closed link refuses, and leaves the device alone. -/
theorem perform_of_closed {l : Link} (h : l.isOpen = false) (a : Answers) (c : LinkCall) :
    l.perform a c = (c.refusal, l.facing a) := by
  have hfacing : (l.facing a).isOpen = false := h
  cases c with
  | read timeout => simp [perform, read, hfacing, LinkCall.refusal, Except.map]
  | write data => simp [perform, write, hfacing, LinkCall.refusal, Except.map]
  | close => simp [perform, close, hfacing, LinkCall.refusal, Except.map]

section

variable {l : Link} (h : l.isOpen = true)
include h

/-- If the timeout cannot be set, nothing is read. -/
theorem read_of_refused (timeout : Duration) {e : UartError} (he : l.uart.timeoutError = some e) :
    l.read timeout =
      (.error (.device e), { l with uart := l.uart.record (.setTimeout timeout) }) := by
  simp [read, h, Uart.setTimeout, he]

theorem read_of_answered {timeout : Duration} (ht : l.uart.timeoutError = none) {r : ReadReply}
    {u : Uart}
    (hr : (l.uart.record (.setTimeout timeout)).readPast l.uart.reads = (r, u)) :
    l.read timeout = (r.outcome timeout, { l with uart := u }) := by
  have hreads : (l.uart.record (.setTimeout timeout)).reads = l.uart.reads := rfl
  simp only [read, h, Uart.setTimeout, ht, hreads, hr, Bool.not_true, Bool.false_eq_true, if_false]
  unfold ReadReply.outcome ReadReply.bytes
  cases r.error with
  | some e => rfl
  | none => by_cases hcount : r.count = 0 <;> simp [hcount]

theorem write_of_open {data : Text} {result : Except LinkError Unit} {u : Uart}
    (hw : l.uart.writePast l.uart.writes data = (result, u)) :
    l.write data = (result, { l with uart := u }) := by
  simp [write, h, hw]

/-- A link is closed even if its device reports an error. -/
theorem close_of_open :
    l.close =
      (match l.uart.closeError with
        | some e => .error (.closing e)
        | none => .ok (), ⟨l.uart.record .close, false⟩) := by
  cases he : l.uart.closeError <;> simp [close, h, Uart.close, he]

end

/-- A call of an open link is served, and only closing it leaves it closed. -/
theorem perform_of_open {l : Link} (h : l.isOpen = true) {a : Answers} (ha : a.Harmless)
    (c : LinkCall) :
    ∃ made, Served a c made (l.perform a c).1 ∧
      (l.perform a c).2.uart.calls = made.reverse ++ l.uart.calls ∧
      (l.perform a c).2.isOpen = (c != .close) := by
  have hfacing : (l.facing a).isOpen = true := h
  cases c with
  | read timeout =>
    cases ht : a.timeoutError with
    | some e =>
      refine ⟨[.setTimeout timeout], ?_⟩
      simp only [perform, read_of_refused hfacing timeout ht]
      exact ⟨.timeoutRefused ht, rfl, h⟩
    | none =>
      obtain ⟨k, hk, heq⟩ :=
        ((l.facing a).uart.record (.setTimeout timeout)).readPast_awaits a.reads ha.reads
      refine ⟨.setTimeout timeout :: List.replicate (k + 1) (.read 1), ?_⟩
      simp only [perform, read_of_answered hfacing ht heq]
      refine ⟨.awaited ht hk, ?_, h⟩
      -- the latest call stands first in the record of the device
      rw [List.reverse_cons, List.reverse_replicate, List.append_assoc]
      rfl
  | write data =>
    obtain ⟨offers, result, hdelivers, heq⟩ :=
      (l.facing a).uart.writePast_delivers a.writes data ha.writes
    refine ⟨offers.map .write, ?_⟩
    simp only [perform, write_of_open hfacing heq]
    exact ⟨.written hdelivers, rfl, h⟩
  | close =>
    refine ⟨[.close], ?_⟩
    simp only [perform, close_of_open hfacing]
    refine ⟨?_, rfl, rfl⟩
    show Served a .close [.close] (Except.map _ (match a.closeError with
      | some e => .error (.closing e)
      | none => .ok ()))
    cases hc : a.closeError with
    | some e => exact .closeFailed hc
    | none => exact .closed hc

/-! ## Sessions -/

/-- The link after calls, each with the answers that the device gives during it. -/
def after (l : Link) (session : List (Answers × LinkCall)) : Link :=
  session.foldl (fun l (a, c) => (l.perform a c).2) l

theorem after_append (l : Link) (earlier later : List (Answers × LinkCall)) :
    l.after (earlier ++ later) = (l.after earlier).after later :=
  List.foldl_append

/-- Once a link is closed its device is left alone. -/
theorem after_of_closed {l : Link} (h : l.isOpen = false) (session : List (Answers × LinkCall)) :
    (l.after session).isOpen = false ∧ (l.after session).uart.calls = l.uart.calls := by
  induction session generalizing l with
  | nil => exact ⟨h, rfl⟩
  | cons exchange session ih =>
    obtain ⟨a, c⟩ := exchange
    have hnext : (l.perform a c).2 = l.facing a := by rw [perform_of_closed h]
    have hclosed : (l.facing a).isOpen = false := h
    show ((l.perform a c).2.after session).isOpen = false ∧
      ((l.perform a c).2.after session).uart.calls = l.uart.calls
    rw [hnext]
    exact ih hclosed

theorem isOpen_close (l : Link) (a : Answers) : (l.perform a .close).2.isOpen = false := by
  cases h : l.isOpen with
  | false => rw [perform_of_closed h]; exact h
  | true => simp only [perform, close_of_open (show (l.facing a).isOpen = true from h)]

/-- What links promise, for every session and whatever the device answers, as long as interrupted
calls move no byte. Each call of the session finds the link open, and then makes the calls to the
device and has the result that `Served` says; or it finds the link closed, makes no call at all, and
is refused. Unless the device fails, the bytes that it brings are the bytes given back. After a call
that closes the link the device is not called again. -/
theorem link_hides_fragments (l : Link) (session : List (Answers × LinkCall))
    (h : ∀ exchange ∈ session, exchange.1.Harmless) :
    (∀ earlier a c later, session = earlier ++ (a, c) :: later →
      ∃ made, (l.after (earlier ++ [(a, c)])).uart.calls =
          made.reverse ++ (l.after earlier).uart.calls ∧
        ((l.after earlier).isOpen = true ∧ Served a c made ((l.after earlier).perform a c).1 ∨
          (l.after earlier).isOpen = false ∧ made = [] ∧
            ((l.after earlier).perform a c).1 = c.refusal) ∧
        ((∀ e, ((l.after earlier).perform a c).1 ≠ .error (.device e)) →
          received a.reads made = returned ((l.after earlier).perform a c).1)) ∧
      ∀ earlier a later, session = earlier ++ (a, .close) :: later →
        (l.after session).uart.calls = (l.after (earlier ++ [(a, .close)])).uart.calls := by
  constructor
  · intro earlier a c later hsession
    have ha : a.Harmless :=
      h (a, c) (hsession ▸ List.mem_append_right earlier (.head _))
    rw [after_append]
    show ∃ made, ((l.after earlier).perform a c).2.uart.calls = _ ∧ _
    cases hopen : (l.after earlier).isOpen with
    | true =>
      obtain ⟨made, hserved, hcalls, -⟩ := perform_of_open hopen ha c
      exact ⟨made, hcalls, .inl ⟨rfl, hserved⟩, hserved.received_eq_returned⟩
    | false =>
      rw [perform_of_closed hopen]
      exact ⟨[], rfl, .inr ⟨rfl, rfl, rfl⟩, fun _ => by cases c <;> rfl⟩
  · -- after closing, the rest of the session is one in which the link is closed
    intro earlier a later hsession
    have hsplit : session = (earlier ++ [(a, .close)]) ++ later := by
      rw [hsession, List.append_assoc]
      rfl
    rw [hsplit, after_append _ _ later]
    refine (after_of_closed ?_ later).2
    rw [after_append]
    exact isOpen_close _ a

/-- A session in which a write is interrupted and taken in pieces, a read is interrupted, and the
link is used on after it was closed. -/
def hesitantSession : List (Answers × LinkCall) := [
  ({ writes := [⟨0, some .interrupted⟩, ⟨2, none⟩, ⟨0, some .interrupted⟩] }, .write [1, 2, 3]),
  ({ reads := [⟨0, 7, some .interrupted⟩, ⟨1, 8, none⟩] }, .read ⟨5⟩),
  ({}, .close), ({}, .write [4]), ({}, .close)]

theorem harmless_hesitantSession : ∀ exchange ∈ hesitantSession, exchange.1.Harmless := by
  intro exchange h
  simp only [hesitantSession, List.mem_cons, List.not_mem_nil, or_false] at h
  rcases h with rfl | rfl | rfl | rfl | rfl <;> exact ⟨by simp, by simp⟩

/-- The three bytes arrive once each, the byte is read, and the closed link is left alone. -/
theorem link_hides_fragments_hesitant :
    (∃ made, (after ⟨{}, true⟩ (hesitantSession.take 1)).uart.calls = made.reverse ++ [] ∧
      Served { writes := [⟨0, some .interrupted⟩, ⟨2, none⟩, ⟨0, some .interrupted⟩] }
        (.write [1, 2, 3]) made (.ok none)) ∧
      (after ⟨{}, true⟩ hesitantSession).uart.calls =
        (after ⟨{}, true⟩ (hesitantSession.take 3)).uart.calls := by
  have h := link_hides_fragments ⟨{}, true⟩ hesitantSession harmless_hesitantSession
  refine ⟨?_, h.2 (hesitantSession.take 2) {} (hesitantSession.drop 3) rfl⟩
  obtain ⟨made, hcalls, hserved | hclosed, -⟩ :=
    h.1 [] { writes := [⟨0, some .interrupted⟩, ⟨2, none⟩, ⟨0, some .interrupted⟩] }
      (.write [1, 2, 3]) (hesitantSession.drop 1) rfl
  · exact ⟨made, hcalls, hserved.2⟩
  · exact absurd hclosed.1 (by decide)

end Link

end Glyph8
