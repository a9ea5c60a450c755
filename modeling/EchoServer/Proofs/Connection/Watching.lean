import EchoServer.Proofs.Connection.Pace
import EchoServer.Proofs.Connection.Tracked

namespace EchoServer.Connection

open Wire (Inbox Received)

/-- The runs from `start`, at the time `begun`, on a clock that waits for the server: the time, the
time of the last news, and the events that were met, each with the time at which it arrived. -/
inductive Watched (start : State × Registry) (begun : Nat) : Nat → Nat →
    List (Nat × Received ClientFrame) → History → State × Registry → Prop
  | start : Watched start begun begun begun [] .empty start
  | meet (time latest seen h s r t r' now got)
      (hrun : Watched start begun time latest seen h (s, r))
      (hstep : Step ⟨time, now⟩ (s, r) (t, r')) (hgot : Meets s got t) :
      Watched start begun time latest (seen ++ [(latest, got)]) (h.step ⟨time, now⟩ r s t) (t, r')
  | step (time latest seen h s r t r' now)
      (hrun : Watched start begun time latest seen h (s, r))
      (hstep : Step ⟨time, now⟩ (s, r) (t, r')) (hmeets : ∀ got, ¬ Meets s got t) :
      Watched start begun time latest seen (h.step ⟨time, now⟩ r s t) (t, r')
  | pass (time latest seen n h s r) (hrun : Watched start begun time latest seen h (s, r))
      (hstill : ∀ now, Still ⟨time, now⟩ (s, r)) (hdue : ∀ d ∈ s.deadline?, time + n ≤ d) :
      Watched start begun (time + n) latest seen h (s, r)
  | receive (time latest seen h s r bytes)
      (hrun : Watched start begun time latest seen h (s, r)) (hopen : s.inbox.closed = false) :
      Watched start begun time time seen { h with received := h.received ++ bytes }
        (s.receive bytes, r)
  | close (time latest seen h s r) (hrun : Watched start begun time latest seen h (s, r)) :
      Watched start begun time time seen h (s.closeInput, r)
  | drop (time latest seen h s r) (hrun : Watched start begun time latest seen h (s, r)) :
      Watched start begun time time seen h (s.drop, r)
  | share (time latest seen h s r r') (hrun : Watched start begun time latest seen h (s, r)) :
      Watched start begun time latest seen h (s, r')

section
variable {start a : State × Registry} {begun time latest : Nat}
  {seen : List (Nat × Received ClientFrame)} {h : History}

theorem Watched.paced (hrun : Watched start begun time latest seen h a) :
    Paced start begun time h a := by
  induction hrun with
  | start => exact .start
  | meet time latest seen h s r t r' now got _ hstep _ ih =>
    exact .step time h s r t r' now ih hstep
  | step time latest seen h s r t r' now _ hstep _ ih => exact .step time h s r t r' now ih hstep
  | pass time latest seen n h s r _ hstill hdue ih => exact .pass time n h s r ih hstill hdue
  | receive time latest seen h s r bytes _ hopen ih => exact .receive time h s r bytes ih hopen
  | close time latest seen h s r _ ih => exact .close time h s r ih
  | drop time latest seen h s r _ ih => exact .drop time h s r ih
  | share time latest seen h s r r' _ ih => exact .share time h s r r' ih

/-- Every run on such a clock has its events. -/
theorem exists_watched (hrun : Paced start begun time h a) :
    ∃ latest seen, Watched start begun time latest seen h a := by
  induction hrun with
  | start => exact ⟨begun, [], .start⟩
  | step time h s r t r' now _ hstep ih =>
    obtain ⟨latest, seen, ih⟩ := ih
    by_cases hmet : ∃ got, Meets s got t
    · obtain ⟨got, hgot⟩ := hmet
      exact ⟨_, _, .meet _ _ _ _ _ _ _ _ now got ih hstep hgot⟩
    · exact ⟨_, _, .step _ _ _ _ _ _ _ _ now ih hstep fun got hgot => hmet ⟨got, hgot⟩⟩
  | pass time n h s r _ hstill hdue ih =>
    obtain ⟨latest, seen, ih⟩ := ih
    exact ⟨_, _, .pass _ _ _ n _ _ _ ih hstill hdue⟩
  | receive time h s r bytes _ hopen ih =>
    obtain ⟨latest, seen, ih⟩ := ih
    exact ⟨_, _, .receive _ _ _ _ _ _ bytes ih hopen⟩
  | close time h s r _ ih =>
    obtain ⟨latest, seen, ih⟩ := ih
    exact ⟨_, _, .close _ _ _ _ _ _ ih⟩
  | drop time h s r _ ih =>
    obtain ⟨latest, seen, ih⟩ := ih
    exact ⟨_, _, .drop _ _ _ _ _ _ ih⟩
  | share time h s r r' _ ih =>
    obtain ⟨latest, seen, ih⟩ := ih
    exact ⟨_, _, .share _ _ _ _ _ _ r' ih⟩

end

/-- A call that is taken up was put aside, or is met. -/
theorem queued_or_meets {clock : Clock} {s t : State} {r r' : Registry}
    {call : String × Metadata} (hmove : Move clock (s, r) (t, r'))
    (hcall : s.nextCall? = some call) : s.queued = some call ∨
      s.queued = none ∧ ∃ got, Meets s got t ∧ callIn got = some call := by
  -- only an idle main loop takes up a call: the one put aside, or else the one that it reads
  have hidle : s.phase = .idle := by
    by_contra hbusy
    cases (nextCall?_of_busy hbusy).symm.trans hcall
  cases hq : s.queued with
  | some next =>
    left
    simpa [State.nextCall?, hidle, hq] using hcall
  | none =>
    right
    refine ⟨rfl, ?_⟩
    cases hmove with
    | fetch s r n hreads hp ha hn =>
      simp [State.nextCall?, hidle, hq, Inbox.fromBuffer, hp] at hcall
    | read s r n k got inbox hk hpoll =>
      obtain rfl : onIdle = k := by simpa [State.reads?, hidle, hq] using hk
      exact ⟨got, .idle n inbox hidle hq hpoll,
        (nextCall?_of_read n got inbox hidle hq hpoll).symm.trans hcall⟩
    | writePart s r f n outbox hw hcur hpush => simp [hidle, Phase.Writes] at hw
    | write s r f n outbox hw hcur hpush => simp [hidle, Phase.Writes] at hw
    | _ => simp_all

/-- What there is to notice behind a running call. -/
inductive Notice
  | nothing
  /-- The call is cancelled, at that time. -/
  | cancelled (time : Nat)
  /-- The next call has come. -/
  | next (call : String × Metadata)

/-- The first event that is no stray message or `half_close` counts: it is the next call, or it
cancels the running one. -/
def notice : List (Nat × Received ClientFrame) → Notice
  | [] => .nothing
  | (time, got) :: more =>
    match got with
    | .frame (.message _) => notice more
    | .frame .halfClose => notice more
    | .frame (.call path metadata) => .next (path, metadata)
    | .frame .cancel => .cancelled time
    | .ended => .cancelled time
    | .failed _ => .cancelled time

/-- The frames among the events. -/
def framesOf (seen : List (Nat × Received ClientFrame)) : List ClientFrame :=
  seen.filterMap fun event => event.2.frame?

theorem framesOf_snoc (seen : List (Nat × Received ClientFrame)) (time : Nat)
    (got : Received ClientFrame) :
    framesOf (seen ++ [(time, got)]) = framesOf seen ++ got.frame?.toList := by
  rw [framesOf, List.filterMap_append]
  cases got <;> rfl

/-- The call that is put aside. -/
def Notice.call? : Notice → Option (String × Metadata)
  | .next call => some call
  | _ => none

/-- What is noticed counts, whatever comes behind it. -/
theorem notice_append (seen more : List (Nat × Received ClientFrame)) :
    notice (seen ++ more) = match notice seen with
      | .nothing => notice more
      | found => found := by
  induction seen with
  | nil => rfl
  | cons event seen ih =>
    obtain ⟨time, got⟩ := event
    cases got with
    | frame f =>
      cases f with
      | message body => exact ih
      | halfClose => exact ih
      | cancel => rfl
      | call path metadata => rfl
    | ended => rfl
    | failed e => rfl

theorem notice_snoc_of_nothing {seen : List (Nat × Received ClientFrame)}
    (h : notice seen = .nothing) (event : Nat × Received ClientFrame) :
    notice (seen ++ [event]) = notice [event] := by
  rw [notice_append, h]

theorem notice_snoc_of_found {seen : List (Nat × Received ClientFrame)}
    (h : notice seen ≠ .nothing) (event : Nat × Received ClientFrame) :
    notice (seen ++ [event]) = notice seen := by
  rw [notice_append]
  split
  · rename_i hnothing
    exact absurd hnothing h
  · rfl

/-- A watcher goes on, stops at the next call, or cancels the running one, as it is noticed. -/
theorem onWatch_cases (time : Nat) (got : Received ClientFrame) :
    (onWatch got = (.on, none) ∧ notice [(time, got)] = .nothing) ∨
      (∃ call, onWatch got = (.off, some call) ∧ notice [(time, got)] = .next call) ∨
      (onWatch got = (.cancelled, none) ∧ notice [(time, got)] = .cancelled time) := by
  cases got with
  | frame f =>
    cases f with
    | message body => exact Or.inl ⟨rfl, rfl⟩
    | halfClose => exact Or.inl ⟨rfl, rfl⟩
    | cancel => exact Or.inr (Or.inr ⟨rfl, rfl⟩)
    | call path metadata => exact Or.inr (Or.inl ⟨(path, metadata), rfl, rfl⟩)
  | ended => exact Or.inr (Or.inr ⟨rfl, rfl⟩)
  | failed e => exact Or.inr (Or.inr ⟨rfl, rfl⟩)

/-- A call that is taken up as it is met is the next one. -/
theorem notice_of_nextCall? {s t : State} {got : Received ClientFrame} {call : String × Metadata}
    (time : Nat) (hgot : Meets s got t) (hcall : s.nextCall? = some call) :
    notice [(time, got)] = .next call := by
  cases hgot with
  | idle n inbox hp hq hpoll =>
    rw [nextCall?_of_read n got inbox hp hq hpoll] at hcall
    cases got with
    | frame f =>
      cases f with
      | call path metadata => exact congrArg Notice.next (Option.some.inj hcall)
      | _ => cases hcall
    | _ => cases hcall
  | watch n call' work inbox hp hpoll =>
    cases (nextCall?_of_busy (by simp [hp])).symm.trans hcall

end EchoServer.Connection
