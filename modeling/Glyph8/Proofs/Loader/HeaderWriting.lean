import Glyph8.Loader.Header
import Glyph8.Proofs.Text.Sinks

/-!
# What writing the header reports

The header is written line by line, and only the result of the last write is looked at. So writing
succeeds if the last line is written, whatever became of the lines before it. A failure means that
the header is incomplete, but success does not mean that it is complete: a sink may refuse a long
line and still have room for the last one, which is short.

`success_reports_last_line` says this for every sink. The header is complete exactly if the sink has
room for all of it (`complete_iff`), and success is reported exactly if the last line was written,
after whatever lines before it were (`reported_iff_last_line`).

How much this matters is computed. For a sink with a limit, `silentRooms` lists the rooms with which
success is reported for an incomplete header. The computation is about the lengths of the lines
alone: which of them are written depends on nothing else (`Sink.roomAfter`). There are nine runs,
one for each line of the body that is longer than the last, but for the first line: where that does
not fit, the next two take up what room there is.

The rule that was meant, success exactly for a complete header, is false for all of these rooms;
`lost_lines_unreported` shows it for the first.
-/

namespace Glyph8.Header

theorem flatten_lines : (body ++ [closing]).flatten = text := by
  rw [List.flatten_append, List.flatten_singleton]
  rfl

theorem length_body :
    body.map List.length = [47, 21, 21, 1, 34, 34, 34, 34, 34, 34, 36, 52, 53, 1] := by
  decide +kernel

theorem length_closing : closing.length = 23 := by decide

theorem length_text : text.length = 459 := by
  rw [← flatten_lines, List.length_flatten, List.map_append, length_body]
  show ([47, 21, 21, 1, 34, 34, 34, 34, 34, 34, 36, 52, 53, 1] ++ [closing.length]).sum = 459
  rw [length_closing]
  rfl

/-- No line of the body is as long as the last line. -/
theorem closing_not_mem_body : closing ∉ body := by
  intro h
  have hlength := List.mem_map_of_mem (f := List.length) h
  rw [length_body, length_closing] at hlength
  exact absurd hlength (by decide)

/-- Where the last line fits, it is written and success is reported. -/
theorem write_of_fits {out : Sink} (h : (out.offerAll body).fits closing = true) :
    write out = (true, (out.offerAll body).push closing) := by
  unfold write Sink.write?
  simp only [if_pos h]

/-- Where the last line does not fit, failure is reported. -/
theorem write_of_full {out : Sink} (h : ¬(out.offerAll body).fits closing = true) :
    write out = (false, out.offerAll body) := by
  unfold write Sink.write?
  simp only [if_neg h]

theorem reported_iff (out : Sink) :
    (write out).1 = true ↔ (out.offerAll body).fits closing = true := by
  by_cases h : (out.offerAll body).fits closing = true
  · simp [write_of_fits h, h]
  · simp [write_of_full h, h]

/-- Writing the header offers all of its lines. -/
theorem write_snd (out : Sink) : (write out).2 = out.offerAll (body ++ [closing]) := by
  have hall : out.offerAll (body ++ [closing]) = (out.offerAll body).offer closing :=
    List.foldl_append
  rw [hall]
  by_cases h : (out.offerAll body).fits closing = true
  · rw [write_of_fits h, Sink.offer_of_fits _ h]
  · rw [write_of_full h, Sink.offer_of_full _ h]

/-- The header is complete exactly if the sink has room for all of it. -/
theorem complete_iff (out : Sink) : (write out).2.since out = text ↔ out.fits text = true := by
  rw [write_snd, ← flatten_lines]
  exact out.since_offerAll_eq_flatten_iff (body ++ [closing])

/-- Where there is room for the whole header, its last line is written too. -/
theorem reported_of_fits {out : Sink} (h : out.fits text = true) : (write out).1 = true := by
  rw [← flatten_lines, Sink.fits_flatten_append] at h
  obtain ⟨hbody, hclosing⟩ := h
  rw [List.flatten_singleton] at hclosing
  rw [reported_iff, out.offerAll_of_fits hbody]
  exact hclosing

/-- Success says that the last line was written, after whatever lines before it were. -/
theorem reported_iff_last_line (out : Sink) :
    (write out).1 = true ↔
      ∃ taken : List Text, taken.Sublist body ∧
        (write out).2 = out.pushAll (taken ++ [closing]) := by
  obtain ⟨taken, hsub, htaken, -⟩ := out.exists_taken body
  by_cases h : (out.offerAll body).fits closing = true
  · have hlast : (write out).2 = out.pushAll (taken ++ [closing]) := by
      rw [write_of_fits h, htaken, Sink.pushAll_append]
      rfl
    exact iff_of_true ((reported_iff out).mpr h) ⟨taken, hsub, hlast⟩
  · refine iff_of_false (fun hr => h ((reported_iff out).mp hr)) ?_
    rintro ⟨others, -, hlast⟩
    rw [write_of_full h, htaken] at hlast
    -- The sink took only lines of the body, and the last line is none of them.
    have hwrites := congrArg Sink.writes hlast
    rw [Sink.writes_pushAll, Sink.writes_pushAll, List.append_left_inj, List.reverse_inj] at hwrites
    exact closing_not_mem_body (hsub.subset (hwrites ▸ List.mem_append_right others (.head _)))

/-! ## Limits -/

/-- The rooms with which success is reported for an incomplete header, as runs of numbers: in each
run a line that is longer than the last one does not fit. -/
def silentRooms : List (Nat × Nat) := [
  (114, 123), (148, 157), (182, 191), (216, 225), (250, 259), (284, 293), (318, 329), (354, 381),
  (406, 434)]

/-- Whether a room is in one of the runs. -/
def isSilent (room : Nat) : Bool := silentRooms.any fun (first, last) => first ≤ room && room ≤ last

/-- The runs are the rooms in which the last line fits after what fits of the body. -/
theorem isSilent_eq {room : Nat} (h : room < 459) :
    isSilent room =
      decide (23 ≤ Sink.roomAfter room [47, 21, 21, 1, 34, 34, 34, 34, 34, 34, 36, 52, 53, 1]) := by
  have hall : (List.range 459).all (fun room => isSilent room ==
      decide (23 ≤ Sink.roomAfter room [47, 21, 21, 1, 34, 34, 34, 34, 34, 34, 36, 52, 53, 1])) =
        true := by
    decide +kernel
  exact eq_of_beq (List.all_eq_true.mp hall room (List.mem_range.mpr h))

/-- With room for the whole header there is nothing to be silent about. -/
theorem not_isSilent {room : Nat} (h : 459 ≤ room) : isSilent room = false := by
  simp only [isSilent, silentRooms, List.any_cons, List.any_nil, Bool.or_false,
    Bool.or_eq_false_iff,
    Bool.and_eq_false_iff, decide_eq_false_iff_not]
  omega

/-- With a limit, exactly the rooms in the runs let an incomplete header pass for a complete one. -/
theorem silent_iff {out : Sink} {room : Nat} (h : out.room = some room) :
    (write out).1 = true ∧ (write out).2.since out ≠ text ↔ isSilent room = true := by
  have hfits : out.fits text = true ↔ 459 ≤ room := by
    unfold Sink.fits
    rw [h, length_text]
    exact decide_eq_true_iff
  have hlast : (write out).1 = true ↔
      23 ≤ Sink.roomAfter room [47, 21, 21, 1, 34, 34, 34, 34, 34, 34, 36, 52, 53, 1] := by
    rw [reported_iff, ← length_body]
    unfold Sink.fits
    rw [out.room_offerAll h body, length_closing]
    exact decide_eq_true_iff
  rw [Ne, complete_iff, hfits, hlast]
  by_cases hroom : 459 ≤ room
  · simp [hroom, not_isSilent hroom]
  · simp [hroom, isSilent_eq (Nat.lt_of_not_le hroom)]

/-- What writing the header reports, for every sink. The header is complete exactly if it fits as a
whole, and then success is reported. Success is reported exactly if the last line was written, which
may be without lines of the body; a sink with a limit does that exactly for the rooms in
`silentRooms`. -/
theorem success_reports_last_line (out : Sink) :
    ((write out).2.since out = text ↔ out.fits text = true) ∧
      ((write out).1 = true ↔
        ∃ taken : List Text, taken.Sublist body ∧
          (write out).2 = out.pushAll (taken ++ [closing])) ∧
      ((write out).2.since out = text → (write out).1 = true) ∧
      ∀ room, out.room = some room →
        ((write out).1 = true ∧ (write out).2.since out ≠ text ↔ isSilent room = true) :=
  ⟨complete_iff out, reported_iff_last_line out,
    fun h => reported_of_fits ((complete_iff out).mp h), fun _ h => silent_iff h⟩

/-- A room that is enough for the header, and one that is not although success is reported. -/
theorem success_reports_last_line_limited :
    (write { room := some 459 }).1 = true ∧
      (write { room := some 459 }).2.since { room := some 459 } = text ∧
      (write { room := some 114 }).1 = true ∧
      (write { room := some 114 }).2.since { room := some 114 } ≠ text := by
  have hwhole := success_reports_last_line { room := some 459 }
  have hpart := success_reports_last_line { room := some 114 }
  have hfits : ({ room := some 459 } : Sink).fits text = true := by
    unfold Sink.fits
    rw [length_text]
    rfl
  have hcomplete := hwhole.1.mpr hfits
  exact ⟨hwhole.2.2.1 hcomplete, hcomplete, (hpart.2.2.2 114 rfl).mpr (by decide)⟩

/-- With room for 114 bytes no constant is written, and success is reported. -/
theorem lost_lines_unreported :
    ¬((write { room := some 114 }).1 = true ↔
      (write { room := some 114 }).2.since { room := some 114 } = text) := by
  have hroom : ({ room := some 114 } : Sink).room = some 114 := rfl
  have h := (silent_iff hroom).mpr (by decide)
  exact fun hiff => h.2 (hiff.mp h.1)

end Glyph8.Header
