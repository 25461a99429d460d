import Glyph8.Proofs.Machine.Run

/-!
# Sessions

A machine is used by calls: it is asked for a step or for a run, any number of times. A call may
fail, and the machine lives on after it. A session is the replies to a sequence of calls, each with
the machine that the call leaves.

Runs are given a number, of which only a positive one is a bound (`stepBound`), and the replies are
what someone who uses the machine gets to see.

What can be said of every step of a machine with a given program can be said of every call of a
session, because no call changes the program (`perform_program`). `session_trap` finds, for any trap
that a session reports, the step that caused it. So facts about traps have to be proved for steps
only.
-/

namespace Glyph8.Machine

/-- What can be asked of a machine. -/
inductive Call where
  | step
  /-- A run, of which only a positive number is a bound. -/
  | run (limit : Int)
deriving DecidableEq

/-- How a call ends. -/
inductive Reply where
  | stepped (trap : Option Trap)
  | ran (ending : RunEnd)
deriving DecidableEq

/-- The trap that a call ends with, if it ends with one. -/
def Reply.trap? : Reply → Option Trap
  | .stepped trap => trap
  | .ran (.trapped trap) => some trap
  | .ran _ => none

/-- The text of the error that a call ends with, if it does not end well. -/
def Reply.error? : Reply → Option Text
  | .stepped trap => trap.map Trap.message
  | .ran ending => ending.error?

/-- Carries out a call. -/
def perform (m : Machine) : Call → Reply × Machine
  | .step => (.stepped m.step.1, m.step.2)
  | .run limit => (.ran (m.run (stepBound limit)).1, (m.run (stepBound limit)).2)

/-- The replies to a sequence of calls, each with the machine that the call leaves. -/
def session (m : Machine) : List Call → List (Reply × Machine)
  | [] => []
  | c :: calls => m.perform c :: (m.perform c).2.session calls

/-- The machine after a sequence of calls. -/
def after (m : Machine) (calls : List Call) : Machine :=
  calls.foldl (fun m c => (m.perform c).2) m

/-! ## No call changes the program -/

theorem perform_program (m : Machine) (c : Call) : (m.perform c).2.program = m.program := by
  cases c with
  | step => exact step_program m
  | run limit =>
    show (m.run (stepBound limit)).2.program = m.program
    rcases m.run_reaches (stepBound limit) with ⟨hreach, _⟩ | ⟨k, trap, hreach, hk, _⟩
    · obtain ⟨_, hlater⟩ := hreach.later
      exact hlater.program
    · obtain ⟨_, hlater⟩ := hreach.later
      have hstep := step_program k
      rw [hk] at hstep
      exact hstep.trans hlater.program

/-! ## Where traps come from -/

/-- A trap that a call reports comes from one of its steps. -/
theorem perform_trap {m : Machine} {c : Call} {trap : Trap}
    (h : (m.perform c).1.trap? = some trap) :
    ∃ k : Machine, k.program = m.program ∧ k.step.1 = some trap := by
  cases c with
  | step => exact ⟨m, rfl, h⟩
  | run limit =>
    have h : Reply.trap? (.ran (m.run (stepBound limit)).1) = some trap := h
    rcases m.run_reaches (stepBound limit) with ⟨_, hend⟩ | ⟨k, trap', hreach, hk, hend⟩
    · -- only a trapped run has a trap to report
      unfold Reply.trap? at h
      split at h
      · next heq => cases heq
      · next heq => exact absurd (Reply.ran.inj heq) (hend _)
      · cases h
    · rw [hend] at h
      obtain ⟨_, hlater⟩ := hreach.later
      exact ⟨k, hlater.program, by rw [hk]; exact h⟩

/-- A trap that a session reports comes from a step of a machine with the session's program. -/
theorem session_trap :
    ∀ (calls : List Call) {m : Machine} {r : Reply × Machine} {trap : Trap},
      r ∈ m.session calls → r.1.trap? = some trap →
      ∃ k : Machine, k.program = m.program ∧ k.step.1 = some trap := by
  intro calls
  induction calls with
  | nil => intro m r trap hr; cases hr
  | cons c calls ih =>
    intro m r trap hr htrap
    rcases List.mem_cons.mp hr with rfl | hr
    · exact perform_trap htrap
    · obtain ⟨k, hk, hstep⟩ := ih hr htrap
      exact ⟨k, hk.trans (perform_program m c), hstep⟩

end Glyph8.Machine
