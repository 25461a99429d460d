import Glyph8.Text.Sink

/-!
# What sinks take

Output goes to a sink, which may have room for only so many bytes. A write that does not fit is
refused as a whole, so what a sink has taken is a list of texts, and a later, shorter text may still
be taken after one was refused.

`pushAll` is the sink after it has taken texts. Taking a text never undoes what was taken before, so
what a sink has taken since some moment are just these texts (`since_pushAll`). Every statement
about output comes down to which texts were taken.

There are two ways to write. A writer that stops at the first refusal has, if it never stopped, all
its texts taken (`eq_pushAll_of_foldlM`). A writer that does not ask only offers its texts: the sink
takes some of them, in order, and those fit together (`exists_taken`). It takes all of them exactly
if they fit as a whole (`since_offerAll_eq_flatten_iff`), because whatever is taken leaves less room
for what comes later. `roomAfter` computes the room that is left from the lengths alone.

A sink without a limit takes every text, by either way.
-/

namespace Glyph8.Sink

/-- The sink after taking texts one after the other. -/
def pushAll (s : Sink) (ts : List Text) : Sink := ts.foldl push s

theorem pushAll_cons (s : Sink) (t : Text) (ts : List Text) :
    s.pushAll (t :: ts) = (s.push t).pushAll ts := rfl

/-- Texts are taken one after the other, so the first ones can be taken first. -/
theorem pushAll_append (s : Sink) (ts us : List Text) :
    s.pushAll (ts ++ us) = (s.pushAll ts).pushAll us :=
  List.foldl_append

/-- The latest text stands first. -/
theorem writes_pushAll (s : Sink) (ts : List Text) :
    (s.pushAll ts).writes = ts.reverse ++ s.writes := by
  induction ts generalizing s with
  | nil => rfl
  | cons t ts ih =>
    rw [pushAll_cons, ih, List.reverse_cons, List.append_assoc]
    rfl

/-- What was taken since a moment are the texts taken since, in order. -/
theorem since_pushAll (s : Sink) (ts : List Text) : (s.pushAll ts).since s = ts.flatten := by
  unfold since
  rw [writes_pushAll, List.length_append, Nat.add_sub_cancel, List.take_left, List.reverse_reverse]

/-- A write that succeeds is taken as a whole. -/
theorem eq_push_of_write? {s s' : Sink} {t : Text} (h : s.write? t = some s') : s' = s.push t := by
  unfold write? at h
  split at h
  · exact (Option.some.inj h).symm
  · cases h

/-- If writes succeed, the sink has taken all of them. -/
theorem eq_pushAll_of_foldlM {s s' : Sink} {ts : List Text} (h : ts.foldlM write? s = some s') :
    s' = s.pushAll ts := by
  induction ts generalizing s with
  | nil => exact (Option.some.inj h).symm
  | cons t ts ih =>
    rw [List.foldlM_cons] at h
    obtain ⟨next, hnext, hrest⟩ := Option.bind_eq_some_iff.mp h
    rw [ih hrest, eq_push_of_write? hnext]
    rfl

/-! ## Texts that are only offered -/

section

variable (s : Sink)

theorem fits_nil : s.fits [] = true := by
  unfold fits
  split
  · rfl
  · exact decide_eq_true (Nat.zero_le _)

/-- Two texts fit together exactly if the second fits after the first is taken. -/
theorem fits_append (t u : Text) :
    s.fits (t ++ u) = true ↔ s.fits t = true ∧ (s.push t).fits u = true := by
  unfold fits push
  cases s.room with
  | none => simp
  | some n =>
    simp only [Option.map_some, List.length_append, decide_eq_true_eq]
    omega

/-- Texts fit together exactly if the first ones do and the others fit after them. -/
theorem fits_flatten_append (ts us : List Text) :
    s.fits (ts ++ us).flatten = true ↔
      s.fits ts.flatten = true ∧ (s.pushAll ts).fits us.flatten = true := by
  induction ts generalizing s with
  | nil => exact ⟨fun h => ⟨s.fits_nil, h⟩, And.right⟩
  | cons t ts ih =>
    rw [List.cons_append, List.flatten_cons, fits_append, ih (s.push t), List.flatten_cons,
      fits_append, pushAll_cons, and_assoc]

theorem offer_of_fits {t : Text} (h : s.fits t = true) : s.offer t = s.push t := by
  unfold offer write?
  rw [if_pos h]
  rfl

/-- A text that does not fit leaves the sink as it was. -/
theorem offer_of_full {t : Text} (h : ¬s.fits t = true) : s.offer t = s := by
  unfold offer write?
  rw [if_neg h]
  rfl

theorem offerAll_cons (t : Text) (ts : List Text) :
    s.offerAll (t :: ts) = (s.offer t).offerAll ts := rfl

/-- Texts that fit together are all taken, as no part of them is too large at its turn. -/
theorem offerAll_of_fits {ts : List Text} (h : s.fits ts.flatten = true) :
    s.offerAll ts = s.pushAll ts := by
  induction ts generalizing s with
  | nil => rfl
  | cons t ts ih =>
    obtain ⟨hfirst, hrest⟩ := (s.fits_append t ts.flatten).mp h
    rw [offerAll_cons, offer_of_fits s hfirst, ih (s.push t) hrest, pushAll_cons]

/-- A sink takes some of the texts that it is offered, and those fit together. -/
theorem exists_taken (ts : List Text) :
    ∃ taken : List Text, taken.Sublist ts ∧ s.offerAll ts = s.pushAll taken ∧
      s.fits taken.flatten = true := by
  induction ts generalizing s with
  | nil => exact ⟨[], .slnil, rfl, s.fits_nil⟩
  | cons t ts ih =>
    rw [offerAll_cons]
    by_cases hfits : s.fits t = true
    · obtain ⟨taken, hsub, heq, hroom⟩ := ih (s.push t)
      refine ⟨t :: taken, hsub.cons_cons t, ?_, (s.fits_append t taken.flatten).mpr ⟨hfits, hroom⟩⟩
      rw [offer_of_fits s hfits, heq, pushAll_cons]
    · obtain ⟨taken, hsub, heq, hroom⟩ := ih s
      exact ⟨taken, hsub.cons t, by rw [offer_of_full s hfits, heq], hroom⟩

/-- A sink takes all that it is offered exactly if that fits as a whole. -/
theorem since_offerAll_eq_flatten_iff (ts : List Text) :
    (s.offerAll ts).since s = ts.flatten ↔ s.fits ts.flatten = true := by
  constructor
  · intro h
    obtain ⟨taken, -, heq, hroom⟩ := s.exists_taken ts
    rw [heq, since_pushAll] at h
    rwa [h] at hroom
  · intro h
    rw [offerAll_of_fits s h, since_pushAll]

/-- How much room is left after texts of the given lengths were offered. -/
def roomAfter (room : Nat) (lengths : List Nat) : Nat :=
  lengths.foldl (fun left n => if n ≤ left then left - n else left) room

/-- The room that is left depends on the lengths of the texts only. -/
theorem room_offerAll {room : Nat} (h : s.room = some room) (ts : List Text) :
    (s.offerAll ts).room = some (roomAfter room (ts.map List.length)) := by
  induction ts generalizing s room with
  | nil => exact h
  | cons t ts ih =>
    have hfits : s.fits t = decide (t.length ≤ room) := by
      unfold fits
      rw [h]
    rw [offerAll_cons]
    by_cases hroom : t.length ≤ room
    · have hleft : (s.push t).room = some (room - t.length) := by
        show s.room.map _ = _
        rw [h]
        rfl
      rw [offer_of_fits s (by rw [hfits]; exact decide_eq_true hroom), ih (s.push t) hleft]
      simp only [roomAfter, List.map_cons, List.foldl_cons, if_pos hroom]
    · rw [offer_of_full s (by rw [hfits]; simpa using hroom), ih s h]
      simp only [roomAfter, List.map_cons, List.foldl_cons, if_neg hroom]

end

/-! ## Sinks without a limit -/

section

variable {s : Sink}

theorem fits_of_unlimited (h : s.room = none) (t : Text) : s.fits t = true := by
  unfold fits
  rw [h]

theorem room_push_of_unlimited (h : s.room = none) (t : Text) : (s.push t).room = none := by
  show s.room.map _ = none
  rw [h]
  rfl

theorem room_pushAll_of_unlimited (h : s.room = none) (ts : List Text) :
    (s.pushAll ts).room = none := by
  induction ts generalizing s with
  | nil => exact h
  | cons t ts ih => exact ih (room_push_of_unlimited h t)

/-- A sink without a limit refuses no write. -/
theorem write?_of_unlimited (h : s.room = none) (t : Text) : s.write? t = some (s.push t) := by
  unfold write?
  rw [if_pos (fits_of_unlimited h t)]

/-- A sink without a limit takes all that it is offered. -/
theorem offerAll_of_unlimited (h : s.room = none) (ts : List Text) : s.offerAll ts = s.pushAll ts :=
  offerAll_of_fits s (fits_of_unlimited h ts.flatten)

end

end Glyph8.Sink
