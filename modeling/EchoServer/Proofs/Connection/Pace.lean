import EchoServer.Proofs.Connection.Runs

/-! Nothing in a run ties the clocks of its steps together. Here time stands still as long as
anybody can move, and when it passes, it stops at the deadline of a delayed call. -/
namespace EchoServer.Connection

/-- A run from `start`, at the time `begun`, on a clock that waits for the server. The calendar may
show anything. -/
inductive Paced (start : State × Registry) (begun : Nat) : Nat → History → State × Registry → Prop
  | start : Paced start begun begun .empty start
  | step (time h s r t r' now) (hrun : Paced start begun time h (s, r))
      (hstep : Step ⟨time, now⟩ (s, r) (t, r')) :
      Paced start begun time (h.step ⟨time, now⟩ r s t) (t, r')
  /-- Time passes, up to the deadline of the running call at most. -/
  | pass (time n h s r) (hrun : Paced start begun time h (s, r))
      (hstill : ∀ now, Still ⟨time, now⟩ (s, r)) (hdue : ∀ d ∈ s.deadline?, time + n ≤ d) :
      Paced start begun (time + n) h (s, r)
  | receive (time h s r bytes) (hrun : Paced start begun time h (s, r))
      (hopen : s.inbox.closed = false) :
      Paced start begun time { h with received := h.received ++ bytes } (s.receive bytes, r)
  | close (time h s r) (hrun : Paced start begun time h (s, r)) :
      Paced start begun time h (s.closeInput, r)
  | drop (time h s r) (hrun : Paced start begun time h (s, r)) :
      Paced start begun time h (s.drop, r)
  | share (time h s r r') (hrun : Paced start begun time h (s, r)) :
      Paced start begun time h (s, r')

variable {start a b : State × Registry} {begun time : Nat} {h : History}

theorem Paced.run (hrun : Paced start begun time h a) : Run start h a := by
  induction hrun with
  | start => exact .start
  | step time h s r t r' now hrun hstep ih => exact .step h s r t r' _ ih hstep
  | pass time n h s r hrun hstill hdue ih => exact ih
  | receive time h s r bytes hrun hopen ih => exact .receive h s r bytes ih hopen
  | close time h s r hrun ih => exact .close h s r ih
  | drop time h s r hrun ih => exact .drop h s r ih
  | share time h s r r' hrun ih => exact .share h s r r' ih

/-- The moves of a schedule take no time. -/
theorem exists_paced_of_schedule (now : Time.Timestamp) (n : Nat)
    (hrun : Paced start begun time h a) :
    ∃ h', Paced start begun time h' (run ⟨time, now⟩ n a) := by
  induction n generalizing h a with
  | zero => exact ⟨h, hrun⟩
  | succ n ih =>
    rw [run]
    split
    · exact ⟨h, hrun⟩
    · rename_i b hb
      obtain ⟨s, r⟩ := a
      obtain ⟨t, r'⟩ := b
      exact ih (.step time h s r t r' now hrun (step_of_move hb))

/-- A run that goes on where another has ended. -/
theorem Run.trans {h' : History} (hrun : Run start h a) (hmore : Run a h' b) :
    ∃ h'', Run start h'' b := by
  induction hmore with
  | start => exact ⟨h, hrun⟩
  | step h' s r t r' clock _ hstep ih =>
    obtain ⟨g, hg⟩ := ih
    exact ⟨_, .step g s r t r' clock hg hstep⟩
  | receive h' s r bytes _ hopen ih =>
    obtain ⟨g, hg⟩ := ih
    exact ⟨_, .receive g s r bytes hg hopen⟩
  | close h' s r _ ih =>
    obtain ⟨g, hg⟩ := ih
    exact ⟨_, .close g s r hg⟩
  | drop h' s r _ ih =>
    obtain ⟨g, hg⟩ := ih
    exact ⟨_, .drop g s r hg⟩
  | share h' s r r' _ ih =>
    obtain ⟨g, hg⟩ := ih
    exact ⟨_, .share g s r r' hg⟩

end EchoServer.Connection
