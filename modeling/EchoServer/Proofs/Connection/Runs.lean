import EchoServer.Connection.Schedule
import EchoServer.Proofs.Connection.Termination

namespace EchoServer.Connection

open Time (Timestamp)
open Wire (Inbox Received)

/-- What a handler looks at when it answers a request. -/
structure Reading where
  now : Timestamp
  registry : Registry

/-- What happened to a connection so far. -/
structure History where
  /-- The bytes that arrived. -/
  received : List UInt8
  /-- The calls that the main loop took up. -/
  calls : List (String × Metadata)
  /-- What the handlers looked at. -/
  readings : List Reading
  /-- The call whose single request was being read when the stream ended or failed. -/
  cutOff : Option Call

/-- Nothing happened yet. -/
def History.empty : History := ⟨[], [], [], none⟩

/-- A call is over: the main loop is idle again, or the connection is finished. -/
def State.BetweenCalls (s : State) : Prop :=
  s.phase = .idle ∨ ∃ failure, s.phase = .finished failure

/-- The call that the main loop takes up next, if it is about to take one up. -/
def State.nextCall? (s : State) : Option (String × Metadata) :=
  match s.phase with
  | .idle => match s.queued with
    | some call => some call
    | none => match s.inbox.fromBuffer ClientFrame.decoder with
      | some (.frame (.call path metadata), _) => some (path, metadata)
      | _ => none
  | _ => none

/-- The call whose single request the main loop is reading when it is about to meet the end or a
failure of the stream. -/
def State.callCutOff? (s : State) : Option Call :=
  match s.phase with
  | .gather call _ => match s.inbox.poll ClientFrame.decoder 0 with
    | some (some .ended, _) => some call
    | some (some (.failed _), _) => some call
    | _ => none
  | _ => none

/-- What the handler looks at in a step: it looks when it leaves a request behind. -/
def lookedAt (clock : Clock) (r : Registry) (s t : State) : List Reading :=
  match s.phase, t.phase with
  | .work _ (.request _) _, .work _ (.request _) _ => []
  | .work _ (.request _) _, _ => [⟨clock.now, r⟩]
  | _, _ => []

/-- A look at the clock and the registry belongs to the answer to a request. -/
theorem lookedAt_eq_nil {s : State} (clock : Clock) (r : Registry) (t : State)
    (h : ∀ call body watch, s.phase = .work call (.request body) watch →
      ∃ call body watch, t.phase = .work call (.request body) watch) :
    lookedAt clock r s t = [] := by
  unfold lookedAt
  split
  · rfl
  · rename_i call body watch hp hno
    obtain ⟨call', body', watch', ht⟩ := h _ _ _ hp
    exact absurd ht (hno call' body' watch')
  · rfl

/-- What happened after one more step. -/
def History.step (h : History) (clock : Clock) (r : Registry) (s t : State) : History :=
  { received := h.received
    calls := h.calls ++ s.nextCall?.toList
    readings := h.readings ++ lookedAt clock r s t
    cutOff := s.callCutOff?.or h.cutOff }

/-- The runs of a connection from the state `start`. Steps show any time and take any bytes; in
between bytes arrive, the peer closes its side or vanishes, and others change the registry. -/
inductive Run (start : State × Registry) : History → State × Registry → Prop
  | start : Run start .empty start
  | step (h s r t r' clock) (hrun : Run start h (s, r)) (hstep : Step clock (s, r) (t, r')) :
      Run start (h.step clock r s t) (t, r')
  | receive (h s r bytes) (hrun : Run start h (s, r)) (hopen : s.inbox.closed = false) :
      Run start { h with received := h.received ++ bytes } (s.receive bytes, r)
  | close (h s r) (hrun : Run start h (s, r)) : Run start h (s.closeInput, r)
  | drop (h s r) (hrun : Run start h (s, r)) : Run start h (s.drop, r)
  | share (h s r r') (hrun : Run start h (s, r)) : Run start h (s, r')

theorem exists_run_of_schedule (start : State × Registry) (clock : Clock) (n : Nat) (h : History)
    (a : State × Registry) (hrun : Run start h a) : ∃ h', Run start h' (run clock n a) := by
  induction n generalizing h a with
  | zero => exact ⟨h, hrun⟩
  | succ n ih =>
    rw [run]
    split
    · exact ⟨h, hrun⟩
    · rename_i b hb
      obtain ⟨s, r⟩ := a
      obtain ⟨t, r'⟩ := b
      exact ih _ _ (.step h s r t r' clock hrun (step_of_move hb))

section
variable {clock : Clock} {a b : State × Registry}

/-- A move does not close the stream, and does not make the peer vanish. -/
theorem peer_of_move (h : Move clock a b) :
    b.1.inbox.closed = a.1.inbox.closed ∧ b.1.outbox.gone = a.1.outbox.gone := by
  have hread (i j : Inbox) (n : Nat) (got : Received ClientFrame)
      (hpoll : i.poll ClientFrame.decoder n = some (some got, j)) : j.closed = i.closed := by
    cases got with
    | frame f =>
      obtain ⟨k, rest, -, rfl⟩ := (Wire.poll_eq_frame_iff _ _ _ _ _).mp hpoll
      rfl
    | ended => rw [((Wire.poll_eq_ended_iff _ _ _ _).mp hpoll).1]
    | failed e => rw [((Wire.poll_eq_failed_iff _ _ _ _ _).mp hpoll).1]
  cases h with
  | read s r n k got inbox hk hpoll => exact ⟨hread _ _ n got hpoll, rfl⟩
  | watch s r n call work got inbox hp hpoll => exact ⟨hread _ _ n got hpoll, rfl⟩
  | writePart s r f n outbox hw hc hpush =>
    obtain ⟨m, -, rfl, -⟩ := push_part _ _ f n hpush
    exact ⟨rfl, rfl⟩
  | write s r f n outbox hw hc hpush => exact ⟨rfl, (push_complete _ _ f n hpush).2.2.1⟩
  | _ => exact ⟨rfl, rfl⟩

theorem room_of_move (h : Move clock a b) (hr : a.1.outbox.room = none) :
    b.1.outbox.room = none := by
  cases h with
  | writePart s r f n outbox hw hc hpush =>
    unfold Outbox.push at hpush
    rw [hr] at hpush
    split at hpush <;> cases hpush
  | write s r f n outbox hw hc hpush =>
    unfold Outbox.push at hpush
    rw [hr] at hpush
    split at hpush
    · cases hpush
    · simp only [Option.some.injEq, Outbox.Pushed.complete.injEq] at hpush
      show outbox.room = none
      rw [← hpush]
  | _ => exact hr

end

end EchoServer.Connection
