import EchoServer.Proofs.Connection.Runs

namespace EchoServer.Connection

open Time (Timestamp)
open Wire (Inbox Received)

/-- There is nothing for a reader to take, and more may come. -/
def Dry (i : Inbox) : Prop :=
  Wire.parse ClientFrame.decoder i.buffer = .ok .incomplete ∧ i.arrived = [] ∧ i.closed = false

/-- A connection that is over, or waits for a frame and has nothing else to do. -/
def AtRest (s : State) : Prop :=
  s.isFinished = true ∨ s.reads? ≠ none ∧ Dry s.inbox ∧
    ∀ call x watch, s.phase = .work call (.stream x) watch → x.forwarding = true →
      x.queue = [] ∧ s.outbox.current = none

section
variable {s : State} (now : Timestamp) (r : Registry)

/-- Somebody can move, if time passes. -/
def Mobile (now : Timestamp) (s : State) (r : Registry) : Prop :=
  ∃ elapsed b, Step ⟨elapsed, now⟩ (s, r) b

theorem mobile_of_request (call : Call) (body : Json) (watch : Watch)
    (hp : s.phase = .work call (.request body) watch) : Mobile now s r := by
  have hwhole : s.isBroken = false := whole_of_phase hp rfl
  rcases hs : Service.start call.method call.metadata body now r with ⟨a, r'⟩
  cases a with
  | done o => exact ⟨0, _, (Move.answer s r call body watch o r' hp hs).step hwhole⟩
  | delayed n request =>
    exact ⟨0, _, (Move.delay s r call body watch n request r' hp hs).step hwhole⟩

variable (hwhole : s.isBroken = false)
include hwhole

theorem mobile_of_move (elapsed : Nat) (b : State × Registry)
    (h : Move ⟨elapsed, now⟩ (s, r) b) : Mobile now s r :=
  ⟨elapsed, b, h.step hwhole⟩

/-- A reader can move, or there is nothing to take. -/
theorem mobile_or_dry (k : Received ClientFrame → Phase) (hk : s.reads? = some k) :
    Mobile now s r ∨ Dry s.inbox := by
  cases hpoll : s.inbox.poll ClientFrame.decoder 0 with
  | none => exact Or.inr ((Wire.poll_eq_none_iff _ _ _).mp hpoll)
  | some p =>
    obtain ⟨got, inbox⟩ := p
    left
    cases got with
    | none => exact mobile_of_move now r hwhole 0 _ (move_of_fetch 0 (.of_reads? hk) inbox hpoll)
    | some got => exact mobile_of_move now r hwhole 0 _ (.read s r 0 k got inbox hk hpoll)

theorem mobile_of_current (f : ServerFrame) (n : Nat) (hw : s.phase.Writes)
    (hc : s.outbox.current = some (f, n)) (hgone : s.outbox.gone = false)
    (hroom : s.outbox.room = none) : Mobile now s r :=
  mobile_of_move now r hwhole 0 _ (.write s r f n _ hw hc (push_roomy s.outbox f n hgone hroom))

theorem mobile_of_stream (call : Call) (x : Stream) (watch : Watch)
    (hp : s.phase = .work call (.stream x) watch) (hgone : s.outbox.gone = false)
    (hroom : s.outbox.room = none) (hf : x.forwarding = true)
    (h : s.outbox.current ≠ none ∨ x.queue ≠ []) : Mobile now s r := by
  have hw : s.phase.Writes := by simp [hp, Phase.Writes]
  cases hc : s.outbox.current with
  | some current =>
    obtain ⟨f, n⟩ := current
    exact mobile_of_current now r hwhole f n hw hc hgone hroom
  | none =>
    cases hq : x.queue with
    | nil => simp [hc, hq] at h
    | cons y rest =>
      exact mobile_of_move now r hwhole 0 _ (.forward s r call x y rest watch hp hc hf hq)

theorem mobile_of_send (call : Call) (x : Stream) (watch : Watch) (y : EchoResponse)
    (next : Handler) (hp : s.phase = .work call (.stream x) watch)
    (hy : x.handler.sends? = some (y, next)) (hgone : s.outbox.gone = false)
    (hroom : s.outbox.room = none) (hcap : 0 < s.capacity) : Mobile now s r := by
  cases hf : x.forwarding with
  | false => exact mobile_of_move now r hwhole 0 _ (.refuse s r call x y next watch hp hy hf)
  | true =>
    by_cases hspace : x.queue.length < s.capacity
    · exact mobile_of_move now r hwhole 0 _ (.send s r call x y next watch hp hy hf hspace)
    · refine mobile_of_stream now r hwhole call x watch hp hgone hroom hf (Or.inr ?_)
      exact List.ne_nil_of_length_pos (by omega)

/-- As long as a connection is not at rest, somebody can move. -/
theorem mobile_or_atRest (hgone : s.outbox.gone = false) (hroom : s.outbox.room = none)
    (hcap : 0 < s.capacity) : Mobile now s r ∨ AtRest s := by
  have hreads (k : Received ClientFrame → Phase) (hk : s.reads? = some k)
      (hw : ∀ call x watch, s.phase ≠ .work call (.stream x) watch) :
      Mobile now s r ∨ AtRest s :=
    (mobile_or_dry now r hwhole k hk).imp id fun hdry =>
      Or.inr ⟨by simp [hk], hdry, fun call x watch hp => absurd hp (hw call x watch)⟩
  cases hp : s.phase with
  | idle =>
    cases hq : s.queued with
    | some call =>
      obtain ⟨path, metadata⟩ := call
      exact Or.inl (mobile_of_move now r hwhole 0 _ (.takeUp s r path metadata hp hq))
    | none => exact hreads onIdle (by simp [State.reads?, hp, hq]) (by simp [hp])
  | gather call body =>
    exact hreads (onGather call body) (by simp [State.reads?, hp]) (by simp [hp])
  | collect call contents =>
    exact hreads (onCollect call contents) (by simp [State.reads?, hp]) (by simp [hp])
  | close frames =>
    left
    cases hc : s.outbox.current with
    | some current =>
      obtain ⟨f, n⟩ := current
      exact mobile_of_current now r hwhole f n (by simp [hp, Phase.Writes]) hc hgone hroom
    | none =>
      cases frames with
      | nil => exact mobile_of_move now r hwhole 0 _ (.endLast s r hp hc)
      | cons f rest => exact mobile_of_move now r hwhole 0 _ (.beginLast s r f rest hp hc)
  | finished failure => exact Or.inr (Or.inl (by simp [State.isFinished, hp]))
  | work call work watch =>
    cases work with
    | request body =>
      exact Or.inl (mobile_of_request now r call body watch hp)
    | delay deadline request =>
      exact Or.inl (mobile_of_move now r hwhole deadline _
        (.expire s r call deadline request watch hp (Nat.le_refl _)))
    | stream x =>
      cases hx : x.handler with
      | start body =>
        exact Or.inl (mobile_of_move now r hwhole 0 _ (.expand s r call x body watch hp hx))
      | send pending verdict =>
        left
        cases pending with
        | nil => exact mobile_of_move now r hwhole 0 _ (.sent s r call x verdict watch hp hx)
        | cons y rest =>
          exact mobile_of_send now r hwhole call x watch y (.send rest verdict) hp
            (by simp [hx, Handler.sends?]) hgone hroom hcap
      | reply y =>
        exact Or.inl (mobile_of_send now r hwhole call x watch y .listen hp
          (by simp [hx, Handler.sends?]) hgone hroom hcap)
      | listen =>
        -- responses go out before the next request is waited for
        by_cases hbusy : x.forwarding = true ∧ (s.outbox.current ≠ none ∨ x.queue ≠ [])
        · exact Or.inl (mobile_of_stream now r hwhole call x watch hp hgone hroom hbusy.1 hbusy.2)
        · have hk : s.reads? = some fun got =>
              .work call (.stream { x with handler := onListen got }) watch := by
            simp [State.reads?, hp, hx]
          refine (mobile_or_dry now r hwhole _ hk).imp id fun hdry =>
            Or.inr ⟨by simp [hk], hdry, ?_⟩
          intro call' x' watch' hp' hf
          obtain ⟨-, rfl, -⟩ := by simpa [hp] using hp'
          have := not_and.mp hbusy hf
          simp only [not_or, ne_eq, Classical.not_not] at this
          exact ⟨this.2, this.1⟩
      | done result =>
        left
        cases hf : x.forwarding with
        | true =>
          by_cases hbusy : s.outbox.current ≠ none ∨ x.queue ≠ []
          · exact mobile_of_stream now r hwhole call x watch hp hgone hroom hf hbusy
          · simp only [not_or, ne_eq, Classical.not_not] at hbusy
            exact mobile_of_move now r hwhole 0 _
              (.endStream s r call x result watch hp hx hbusy.1 hf hbusy.2)
        | false =>
          cases hc : s.outbox.current with
          | some current =>
            obtain ⟨f, n⟩ := current
            exact mobile_of_current now r hwhole f n (by simp [hp, Phase.Writes]) hc hgone hroom
          | none =>
            exact mobile_of_move now r hwhole 0 _ (.giveUp s r call x result watch hp hx hc hf)

end

/-- Only the answer to a request depends on the time of the calendar and on the registry. -/
theorem move_any (clock : Clock) (s t : State) (r r' : Registry) (now : Timestamp) (q : Registry)
    (hno : ∀ call body watch, s.phase ≠ .work call (.request body) watch)
    (h : Move clock (s, r) (t, r')) : Move ⟨clock.elapsed, now⟩ (s, q) (t, q) := by
  cases h with
  | fetch s r n hr hp ha hn => exact .fetch s q n hr hp ha hn
  | read s r n k got inbox hk hpoll => exact .read s q n k got inbox hk hpoll
  | takeUp s r path metadata hp hq => exact .takeUp s q path metadata hp hq
  | watch s r n call work got inbox hp hpoll => exact .watch s q n call work got inbox hp hpoll
  | answer s r call body watch o r' hp hs => exact absurd hp (hno call body watch)
  | delay s r call body watch n request r' hp hs => exact absurd hp (hno call body watch)
  | cancel s r call deadline request hp => exact .cancel s q call deadline request hp
  | expire s r call deadline request watch hp hd =>
    exact .expire s q call deadline request watch hp hd
  | expand s r call x body watch hp hx => exact .expand s q call x body watch hp hx
  | sent s r call x verdict watch hp hx => exact .sent s q call x verdict watch hp hx
  | send s r call x y next watch hp hx hf hroom =>
    exact .send s q call x y next watch hp hx hf hroom
  | refuse s r call x y next watch hp hx hf => exact .refuse s q call x y next watch hp hx hf
  | forward s r call x y rest watch hp hc hf hq =>
    exact .forward s q call x y rest watch hp hc hf hq
  | endStream s r call x result watch hp hx hc hf hq =>
    exact .endStream s q call x result watch hp hx hc hf hq
  | giveUp s r call x result watch hp hx hc hf =>
    exact .giveUp s q call x result watch hp hx hc hf
  | writePart s r f n outbox hw hc hpush => exact .writePart s q f n outbox hw hc hpush
  | write s r f n outbox hw hc hpush => exact .write s q f n outbox hw hc hpush
  | failStream s r call x watch f n hp hc hpush =>
    exact .failStream s q call x watch f n hp hc hpush
  | failLast s r frames f n hp hc hpush => exact .failLast s q frames f n hp hc hpush
  | beginLast s r f rest hp hc => exact .beginLast s q f rest hp hc
  | endLast s r hp hc => exact .endLast s q hp hc

/-- Whatever others do to the registry, and whatever the time is, does not keep a connection from
moving. -/
theorem mobile_of_next (s t : State) (h : Next s t) (now : Timestamp) (q : Registry) :
    Mobile now s q := by
  obtain ⟨clock, r, r', hstep⟩ := h
  by_cases hrequest : ∃ call body watch, s.phase = .work call (.request body) watch
  · obtain ⟨call, body, watch, hp⟩ := hrequest
    exact mobile_of_request now q call body watch hp
  · refine mobile_of_move now q hstep.whole clock.elapsed (t, q)
      (move_any clock s t r r' now q ?_ ?_)
    · exact fun call body watch hp => hrequest ⟨call, body, watch, hp⟩
    · exact hstep.move

/-- The beginning of the calendar's first day of 1970. -/
def epoch : Timestamp := ⟨0, 0, by decide, by decide, by decide⟩

theorem atRest_of_settled (s : State) (h : Settled s) (hgone : s.outbox.gone = false)
    (hroom : s.outbox.room = none) (hcap : 0 < s.capacity) : AtRest s := by
  obtain ⟨hwhole, hstill⟩ := h
  rcases mobile_or_atRest epoch .empty hwhole hgone hroom hcap with
    ⟨elapsed, ⟨t, r'⟩, hstep⟩ | hrest
  · exact absurd ⟨⟨elapsed, epoch⟩, .empty, r', hstep⟩ (hstill t)
  · exact hrest

theorem capacity_of_move (clock : Clock) (a b : State × Registry) (h : Move clock a b) :
    b.1.capacity = a.1.capacity := by
  cases h <;> rfl

theorem capacity_of_run {start : State × Registry} {h : History} {a : State × Registry}
    (hrun : Run start h a) : a.1.capacity = start.1.capacity := by
  induction hrun with
  | start => rfl
  | step h s r t r' clock hrun hstep ih => exact (capacity_of_move clock _ _ hstep.move).trans ih
  | receive h s r bytes hrun hopen ih => exact ih
  | close h s r hrun ih => exact ih
  | drop h s r hrun ih => exact ih
  | share h s r r' hrun ih => exact ih

/-- With queues that can be made, no call breaks a connection down. -/
theorem whole_of_run {capacity : Nat} {reads : Bool} {registry : Registry} {h : History}
    {a : State × Registry} (hrun : Run (State.init capacity reads, registry) h a)
    (hplaces : CanQueue (max capacity 1)) : a.1.isBroken = false := by
  apply whole_of_canQueue
  rw [capacity_of_run hrun]
  exact hplaces

/-- What a run keeps for a peer that reads: there is room for what is written to it, and room in
the queue of a stream. -/
theorem room_run {start : State × Registry} {h : History} {a : State × Registry}
    (hrun : Run start h a) (hstart : start.1.outbox.room = none ∧ 0 < start.1.capacity) :
    a.1.outbox.room = none ∧ 0 < a.1.capacity := by
  refine ⟨?_, capacity_of_run hrun ▸ hstart.2⟩
  induction hrun with
  | start => exact hstart.1
  | step h s r t r' clock hrun hstep ih => exact room_of_move hstep.move ih
  | receive h s r bytes hrun hopen ih => exact ih
  | close h s r hrun ih => exact ih
  | drop h s r hrun ih => exact ih
  | share h s r r' hrun ih => exact ih

theorem room_of_run (capacity : Nat) (registry : Registry) (h : History) (a : State × Registry)
    (hrun : Run (State.init capacity true, registry) h a) :
    a.1.outbox.room = none ∧ 0 < a.1.capacity :=
  room_run hrun ⟨rfl, Nat.lt_of_lt_of_le Nat.one_pos (Nat.le_max_right _ _)⟩

end EchoServer.Connection
