import EchoServer.Proofs.Connection.Standstill
import EchoServer.Proofs.Connection.Tracked
import EchoServer.Proofs.Connection.Waiting
import EchoServer.Proofs.Service.Intake

/-! `inflow` reads off what was read for a call how far its stream has come: the contents of the
requests before the first event that ends the stream, and how it ends. -/
namespace EchoServer.Connection

open Service (decodeRequest)
open Wire (Front Inbox Received)

/-- What an event is to a stream of requests. -/
inductive Turn
  /-- One more request. -/
  | goes (r : EchoRequest)
  /-- The end of the stream: its natural one, or a failure. -/
  | stops (result : Except Status Unit)

/-- A request goes into the stream, unless it cannot be decoded or asks for a failure. -/
def Turn.of : Except Status EchoRequest → Turn
  | .error s => .stops (.error s)
  | .ok r => match Status.failure? r.error with
    | some s => .stops (.error s)
    | none => .goes r

/-- All but messages ends the stream. -/
def turn : Received ClientFrame → Turn
  | .frame (.message body) => .of (decodeRequest EchoRequest.decoder body)
  | .frame .halfClose => .stops (.ok ())
  | .frame .cancel => .stops (.error cancelledByPeer)
  | .frame (.call _ _) => .stops (.error callTooEarly)
  | .ended => .stops (.error closedByPeer)
  | .failed e => .stops (.error (connectionFailed e))

/-- The contents of the requests before the first event that ends the stream, and how it ends if it
does. -/
def inflow : List (Received ClientFrame) → List String × Option (Except Status Unit)
  | [] => ([], none)
  | got :: more =>
    match turn got with
    | .stops result => ([], some result)
    | .goes r => (r.content :: (inflow more).1, (inflow more).2)

/-- Whatever follows the end of a stream, the stream comes to the same. -/
theorem inflow_append {events : List (Received ClientFrame)} {result : Except Status Unit}
    (h : (inflow events).2 = some result) (more : List (Received ClientFrame)) :
    inflow (events ++ more) = inflow events := by
  induction events with
  | nil => cases h
  | cons got events ih =>
    rw [List.cons_append]
    cases hgot : turn got with
    | stops result => simp only [inflow, hgot]
    | goes r =>
      have hrest : (inflow events).2 = some result := by simpa only [inflow, hgot] using h
      simp only [inflow, hgot, ih hrest]

/-- A stream goes on as long as each of its events is a request. -/
theorem inflow_eq_none_iff {events : List (Received ClientFrame)} :
    (inflow events).2 = none ↔ ∀ got ∈ events, ∃ r, turn got = .goes r := by
  induction events with
  | nil => simp [inflow]
  | cons got events ih =>
    cases hgot : turn got with
    | stops result => simp [inflow, hgot]
    | goes r => simp [inflow, hgot, ih]

/-- Only the natural end of a stream is no item of it. -/
theorem requestOf_eq_none_iff {got : Received ClientFrame} :
    requestOf got = none ↔ got = .frame .halfClose :=
  ⟨halfClose_of_requestOf, by rintro rfl; rfl⟩

/-- An event is to a stream of requests what its item is to a handler. -/
theorem turn_eq {got : Received ClientFrame} {item : Except Status EchoRequest}
    (h : requestOf got = some item) : turn got = .of item := by
  cases got with
  | frame f =>
    cases f with
    | message body => exact congrArg Turn.of (Option.some.inj h)
    | halfClose => cases h
    | cancel => cases h; rfl
    | call path metadata => cases h; rfl
  | ended => cases h; rfl
  | failed e => cases h; rfl

/-- A stream comes to its natural end at `half_close` alone. -/
theorem halfClose_of_inflow {events : List (Received ClientFrame)}
    (h : (inflow events).2 = some (.ok ())) : .frame .halfClose ∈ events := by
  induction events with
  | nil => cases h
  | cons got events ih =>
    cases hitem : requestOf got with
    | none =>
      rw [requestOf_eq_none_iff.mp hitem]
      exact List.mem_cons_self
    | some item =>
      apply List.mem_cons_of_mem
      apply ih
      cases item with
      | error s => simp [inflow, turn_eq hitem, Turn.of] at h
      | ok r =>
        cases hr : Status.failure? r.error with
        | some s => simp [inflow, turn_eq hitem, Turn.of, hr] at h
        | none => simpa [inflow, turn_eq hitem, Turn.of, hr] using h

/-- What the handler of a stream is given is what the events come to, if the stream does not end by
itself before the last of them. -/
theorem intake_eq {events : List (Received ClientFrame)}
    (hlast : ∀ got ∈ events.dropLast, got ≠ .frame .halfClose) :
    Service.intake (events.filterMap requestOf) =
      ((inflow events).1, (inflow events).2.getD (.ok ())) := by
  induction events with
  | nil => rfl
  | cons got events ih =>
    cases hitem : requestOf got with
    | none =>
      obtain rfl := requestOf_eq_none_iff.mp hitem
      -- nothing can stand behind the natural end
      have hnil : events = [] := by
        by_contra hne
        have hmem : Received.frame .halfClose ∈
            (Received.frame ClientFrame.halfClose :: events).dropLast := by
          rw [List.dropLast_cons_of_ne_nil hne]
          exact List.mem_cons_self
        exact hlast _ hmem rfl
      rw [hnil]
      rfl
    | some item =>
      have hrest : ∀ x ∈ events.dropLast, x ≠ .frame .halfClose := by
        intro x hx
        apply hlast x
        cases events with
        | nil => cases hx
        | cons y ys =>
          rw [List.dropLast_cons_of_ne_nil (List.cons_ne_nil y ys)]
          exact List.mem_cons_of_mem _ hx
      rw [List.filterMap_cons_some hitem]
      have hturn := turn_eq hitem
      cases item with
      | error s => simp only [Service.intake, inflow, hturn, Turn.of, Option.getD_some]
      | ok r =>
        cases hr : Status.failure? r.error with
        | some s => simp only [Service.intake, inflow, hturn, Turn.of, hr, Option.getD_some]
        | none => simp only [Service.intake, inflow, hturn, Turn.of, hr, ih hrest]

/-- So it is behind messages, whatever ends them. -/
theorem intake_of_asked (bodies : List Json) (tail : List (Received ClientFrame))
    (htail : tail.length ≤ 1) :
    Service.intake ((bodies.map asked ++ tail).filterMap requestOf) =
      ((inflow (bodies.map asked ++ tail)).1,
        (inflow (bodies.map asked ++ tail)).2.getD (.ok ())) := by
  apply intake_eq
  have hmessages : Received.frame .halfClose ∉ bodies.map asked := by simp [asked]
  rintro got hgot rfl
  cases tail with
  | nil =>
    rw [List.append_nil] at hgot
    exact hmessages (List.dropLast_subset _ hgot)
  | cons got more =>
    obtain rfl : more = [] := List.length_eq_zero_iff.mp (by simpa using htail)
    rw [List.dropLast_concat] at hgot
    exact hmessages hgot

/-- Messages alone do not bring a stream to its natural end. -/
theorem inflow_of_asked {bodies : List Json}
    (h : (Service.intake ((bodies.map asked).filterMap requestOf)).2 = .ok ()) :
    (inflow (bodies.map asked)).2 = none := by
  have hintake := intake_of_asked bodies [] (Nat.zero_le 1)
  rw [List.append_nil] at hintake
  rw [hintake] at h
  cases hstop : (inflow (bodies.map asked)).2 with
  | none => rfl
  | some result =>
    obtain rfl : result = .ok () := by simpa [hstop] using h
    have hmem : Received.frame .halfClose ∈ bodies.map asked := halfClose_of_inflow hstop
    simp [asked] at hmem

namespace Account

/-- The method of the call takes a stream of requests. -/
def Gathers (c : Account) : Prop :=
  Method.ofPath? c.path = some .collect ∨ Method.ofPath? c.path = some .chat

/-- Nothing was read behind the event that ends the stream of the call. -/
def Heeds (c : Account) : Prop := ∀ got ∈ c.reads.dropLast, ∃ r, turn got = .goes r

variable {c : Account}

theorem not_gathers {m : Method} (hm : Method.ofPath? c.path = some m)
    (hone : readsOne m = true) : ¬ c.Gathers := by
  rintro (h | h)
  · cases hm.symm.trans h
    cases hone
  · cases hm.symm.trans h
    cases hone

end Account

/-- The fold of `Collect` goes on as long as its stream does. -/
theorem intake_of_foldlM {items : List (Except Status EchoRequest)} {contents : List String}
    (h : items.foldlM (fun acc item => item.bind (Service.collectStep acc)) [] = .ok contents) :
    (Service.intake items).2 = .ok () := by
  rw [Service.foldlM_collectStep] at h
  cases hresult : (Service.intake items).2 with
  | ok => rfl
  | error s => simp [hresult, Except.map] at h

theorem intake_of_chatResponses {items : List (Except Status EchoRequest)}
    {handed : List EchoResponse} {result : Except Status Unit}
    (h : Service.chatResponses none items = (handed, result)) :
    handed = (Service.intake items).1.map .ofContent ∧ (Service.intake items).2 = result := by
  rw [Service.chatResponses_eq] at h
  obtain ⟨hcontents, hresult⟩ := Prod.mk.inj h
  exact ⟨hcontents.symm, hresult⟩

section
variable {accounts taken : List Account} {s t : State} {c : Account} {bodies : List Json}

/-- A stream that has gone on so far. -/
theorem inflow_of_reads (hreads : c.reads = bodies.map asked)
    (h : (Service.intake c.requests).2 = .ok ()) : (inflow c.reads).2 = none := by
  rw [Account.requests, hreads] at h
  rw [hreads]
  exact inflow_of_asked h

theorem heeds_read (hreads : c.reads = bodies.map asked)
    (h : (Service.intake c.requests).2 = .ok ()) (got : Received ClientFrame) :
    (c.read got).Heeds := by
  intro x hx
  have hx : x ∈ c.reads := by simpa [Account.read] using hx
  exact inflow_eq_none_iff.mp (inflow_of_reads hreads h) x hx

/-- What the running call reads comes behind messages, and behind requests if its method takes a
stream of them. -/
theorem reads_of_hears {got : Received ClientFrame} (hgot : Hears s got t)
    (haccounted : Accounted accounts s) (hforwards : s.phase.Forwards) :
    ∃ front c, ∃ bodies : List Json, accounts = front ++ [c] ∧ c.reads = bodies.map asked ∧
      (c.Gathers → (Service.intake c.requests).2 = .ok ()) := by
  obtain ⟨taken, hbooked, hstage⟩ := haccounted
  cases hgot with
  | read k n inbox hbusy hk hpoll =>
    unfold State.reads? at hk
    split at hk
    · rename_i hp
      exact absurd hp hbusy
    · rename_i call body hp
      obtain ⟨hq, hone, c, ⟨hof, -, front, rfl, -⟩, hreads⟩ := (stage_gather_iff hp).mp hstage
      exact ⟨front, c, _, booked_none hbooked hq, hreads, fun hc =>
        absurd hc (Account.not_gathers hof.method hone)⟩
    · rename_i call contents hp
      obtain ⟨hq, -, c, bodies, ⟨-, -, front, rfl, -⟩, hreads, hfold⟩ :=
        (stage_collect_iff hp).mp hstage
      exact ⟨front, c, _, booked_none hbooked hq, hreads, fun _ => intake_of_foldlM hfold⟩
    · rename_i call x watch hp
      split at hk
      · rename_i hx
        obtain ⟨front, c, base, begun, rfl, -, hstream⟩ := (stage_stream_iff hp).mp hstage
        obtain ⟨-, -, hq⟩ := hstream.listens (by rw [hx]; trivial)
        obtain ⟨handed, -, hhanded⟩ := hstream.going (hforwards call x watch hp)
        rw [hx] at hhanded
        cases hhanded with
        | listen bodies handed hm hreads hall =>
          exact ⟨front, c, _, booked_none hbooked hq, hreads, fun _ =>
            (intake_of_chatResponses hall).2⟩
      · cases hk
    · cases hk

/-- A call that has read the end or a failure of the connection has read what stands there: there
is nothing behind its frames, or something that is no frame and no part of one. -/
structure Account.Breaks (c : Account) (stream : List UInt8) (closed : Bool) : Prop where
  ended : .ended ∈ c.reads →
    closed = true ∧ Front ClientFrame.decoder (stream.drop c.place) c.frames []
  failed : ∀ e, .failed e ∈ c.reads → ∃ rest,
    Front ClientFrame.decoder (stream.drop c.place) c.frames rest ∧
      ((∃ met behind, rest = met ++ behind ∧ Wire.parse ClientFrame.decoder met = .error e) ∨
        closed = true ∧ e = .unexpectedEnd ∧ rest ≠ [] ∧
          Wire.parse ClientFrame.decoder rest = .ok .incomplete)

section
variable {stream : List UInt8} {closed : Bool}

theorem Account.Breaks.of_messages (hreads : c.reads = bodies.map asked) :
    c.Breaks stream closed := by
  constructor
  · intro h
    simp [hreads, asked] at h
  · intro e h
    simp [hreads, asked] at h

theorem Account.Breaks.close (h : c.Breaks stream closed) : c.Breaks stream true := by
  refine ⟨fun hended => ⟨rfl, (h.ended hended).2⟩, fun e hfailed => ?_⟩
  obtain ⟨rest, hfront, hbreak⟩ := h.failed e hfailed
  exact ⟨rest, hfront, hbreak.imp_right fun hcut => ⟨rfl, hcut.2⟩⟩

theorem Account.Breaks.append (h : c.Breaks stream false) (hplace : c.place ≤ stream.length)
    (more : List UInt8) : c.Breaks (stream ++ more) false := by
  have hdrop : (stream ++ more).drop c.place = stream.drop c.place ++ more :=
    List.drop_append_of_le_length hplace
  refine ⟨fun hended => absurd (h.ended hended).1 (by simp), fun e hfailed => ?_⟩
  obtain ⟨rest, hfront, ⟨met, behind, rfl, hmet⟩ | ⟨hno, -⟩⟩ := h.failed e hfailed
  · refine ⟨met ++ behind ++ more, ?_, Or.inl ⟨met, behind ++ more, by simp, hmet⟩⟩
    rw [hdrop]
    exact hfront.append more
  · cases hno

/-- What the running call reads stands where its frames end. -/
theorem Account.Breaks.read {got : Received ClientFrame} (hgot : Hears s got t)
    (hreads : c.reads = bodies.map asked)
    (hfront : Front ClientFrame.decoder (stream.drop c.place) c.frames s.inbox.bytes) :
    (c.read got).Breaks stream t.inbox.closed := by
  have hmessages : Received.ended ∉ c.reads ∧ ∀ e, Received.failed e ∉ c.reads := by
    simp [hreads, asked]
  have hsame (hnone : got.frame? = none) : (c.read got).frames = c.frames := by
    rw [frames_read, hnone]
    exact List.append_nil _
  cases hgot with
  | read k n inbox hbusy hk hpoll =>
    constructor
    · intro h
      obtain rfl : .ended = got :=
        List.mem_singleton.mp ((List.mem_append.mp h).resolve_left hmessages.1)
      obtain ⟨rfl, hbuffer, harrived, hclosed⟩ := (Wire.poll_eq_ended_iff _ _ _ _).mp hpoll
      rw [Inbox.bytes, hbuffer, harrived] at hfront
      rw [hsame rfl]
      exact ⟨hclosed, hfront⟩
    · intro e h
      obtain rfl : .failed e = got :=
        List.mem_singleton.mp ((List.mem_append.mp h).resolve_left (hmessages.2 e))
      rw [hsame rfl]
      obtain ⟨rfl, hparse | ⟨hparse, harrived, hclosed, hne, he⟩⟩ :=
        (Wire.poll_eq_failed_iff _ _ _ _ _).mp hpoll
      · exact ⟨_, hfront, Or.inl ⟨s.inbox.buffer, s.inbox.arrived, rfl, hparse⟩⟩
      · rw [Inbox.bytes, harrived, List.append_nil] at hfront
        exact ⟨_, hfront, Or.inr ⟨hclosed, he, hne, hparse⟩⟩

end

/-- Nothing is read for the call behind the end of its stream, and what ends the stream stands
there. -/
structure Account.Sound (c : Account) (stream : List UInt8) (closed : Bool) : Prop where
  heeds : c.Gathers → c.Heeds
  breaks : c.Breaks stream closed

theorem sound_hear {stream : List UInt8} {got : Received ClientFrame} (hgot : Hears s got t)
    (haccounted : Accounted accounts s) (hforwards : s.phase.Forwards)
    (htracked : Tracked stream accounts s) (hclosed : t.inbox.closed = s.inbox.closed)
    (h : ∀ c ∈ accounts, c.Sound stream s.inbox.closed) :
    ∀ c ∈ accounts.modifyLast (·.read got), c.Sound stream t.inbox.closed := by
  obtain ⟨front, c, bodies, rfl, hreads, hgoes⟩ := reads_of_hears hgot haccounted hforwards
  obtain ⟨front', c', heq, hfront⟩ := htracked.last (attends_of_hears hgot)
  obtain ⟨-, hc⟩ := List.append_inj' heq rfl
  obtain rfl := List.head_eq_of_cons_eq hc
  rw [List.modifyLast_concat]
  intro x hx
  rcases List.mem_append.mp hx with hx | hx
  · rw [hclosed]
    exact h x (List.mem_append_left _ hx)
  · rw [List.mem_singleton.mp hx]
    exact ⟨fun hc => heeds_read hreads (hgoes hc) got, .read hgot hreads hfront⟩

/-- A look of the handler leaves what was read as it is. -/
theorem sound_look {stream : List UInt8} {closed : Bool} (readings : List Reading)
    (h : ∀ c ∈ accounts, c.Sound stream closed) :
    ∀ c ∈ look s.queued accounts readings, c.Sound stream closed := by
  rcases look_eq s.queued accounts readings with hsame | ⟨front, c, back, g, rfl, hlook⟩
  · rwa [hsame]
  · rw [hlook]
    intro x hx
    rcases List.mem_append.mp hx with hx | hx
    · exact h x (List.mem_append_left _ hx)
    rcases List.mem_cons.mp hx with rfl | hx
    · obtain ⟨hheeds, hended, hfailed⟩ := h c (List.mem_append_right _ List.mem_cons_self)
      exact ⟨hheeds, hended, hfailed⟩
    · exact h x (List.mem_append_right _ (List.mem_cons_of_mem _ hx))

end

/-- All along a run with a peer that is there, what was read for a call is what its stream holds up
to its end. -/
theorem sound_run {capacity : Nat} {reads : Bool} {registry : Registry}
    {accounts : List Account} {h : History} {a : State × Registry}
    (hrun : Recorded (State.init capacity reads, registry) accounts h a)
    (hgone : a.1.outbox.gone = false) : ∀ c ∈ accounts, c.Sound h.received a.1.inbox.closed := by
  induction hrun with
  | start => simp
  | hear accounts h s r t r' clock got hrun hstep hgot ih =>
    obtain ⟨hclosed, hpeer⟩ := peer_of_move hstep.move
    have hthere : s.outbox.gone = false := hpeer.symm.trans hgone
    have hforwards : s.phase.Forwards := fun call x watch hp =>
      ((orderly_stream_iff hp).mp (orderly_run _ _ _ _ _ hrun.run hthere)).2.1
    exact sound_hear hgot (accounted_run hrun) hforwards (tracked_run hrun) hclosed (ih hthere)
  | meet accounts h s r t r' clock got hrun hstep hgot ih =>
    obtain ⟨hclosed, hpeer⟩ := peer_of_move hstep.move
    intro c hc
    rcases List.mem_append.mp hc with hc | hc
    · rw [hclosed]
      exact ih (hpeer.symm.trans hgone) c hc
    -- for a call that begins nothing was read
    · have hreads : c.reads = [].map asked := by
        rcases call_or_other got with ⟨path, metadata, rfl⟩ | ⟨hno, -⟩
        · rw [List.mem_singleton.mp hc]
          rfl
        · rw [hno] at hc
          cases hc
      refine ⟨fun _ x hx => ?_, .of_messages hreads⟩
      rw [hreads] at hx
      cases hx
  | step accounts h s r t r' clock hrun hstep hears hmeets ih =>
    obtain ⟨hclosed, hpeer⟩ := peer_of_move hstep.move
    apply sound_look
    rw [hclosed]
    exact ih (hpeer.symm.trans hgone)
  | receive accounts h s r bytes hrun hopen ih =>
    intro c hc
    obtain ⟨hheeds, hbreaks⟩ := ih hgone c hc
    rw [hopen] at hbreaks
    have hplace := ((tracked_run hrun).all c hc).place
    refine ⟨hheeds, ?_⟩
    show c.Breaks (h.received ++ bytes) s.inbox.closed
    rw [hopen]
    exact hbreaks.append hplace bytes
  | close accounts h s r hrun ih =>
    intro c hc
    obtain ⟨hheeds, hbreaks⟩ := ih hgone c hc
    exact ⟨hheeds, hbreaks.close⟩
  | drop accounts h s r hrun ih => cases hgone
  | share accounts h s r r' hrun ih => exact ih hgone

/-- As long as a stream goes on, all that was read of it is frames. -/
theorem reads_eq_frames {c : Account} (h : (inflow c.reads).2 = none) :
    c.reads = c.frames.map .frame := by
  have hgoes := inflow_eq_none_iff.mp h
  rw [Account.frames]
  generalize c.reads = events at hgoes
  induction events with
  | nil => rfl
  | cons got events ih =>
    obtain ⟨⟨r, hr⟩, hrest⟩ := List.forall_mem_cons.mp hgoes
    cases got with
    | frame f => exact congrArg (Received.frame f :: ·) (ih hrest)
    | ended => cases hr
    | failed e => cases hr

/-- A handler ends as its stream does: with the natural end, or with the failure. -/
theorem stopped_of_last {c : Account} {bodies : List Json} {got : Received ClientFrame}
    (hreads : c.reads = bodies.map asked ++ [got])
    (hlast : got = .frame .halfClose ∨ ∃ s, (Service.intake c.requests).2 = .error s) :
    ∃ result, (inflow c.reads).2 = some result ∧
      Service.intake c.requests = ((inflow c.reads).1, result) := by
  have hintake := intake_of_asked bodies [got] (Nat.le_refl 1)
  rw [← hreads] at hintake
  change Service.intake c.requests = _ at hintake
  cases hstop : (inflow c.reads).2 with
  | some result => exact ⟨result, rfl, by rw [hintake, hstop]; rfl⟩
  | none =>
    rcases hlast with rfl | ⟨s, hs⟩
    · have hmem : Received.frame .halfClose ∈ c.reads := by simp [hreads]
      obtain ⟨r, hr⟩ := inflow_eq_none_iff.mp hstop _ hmem
      cases hr
    · rw [hintake, hstop] at hs
      cases hs

/-- A call with a stream of requests has ended as its stream has. -/
theorem Account.Ends.stopped {c : Account} {sent : List Json} {o : Outcome (Option Json)}
    (h : c.Ends sent o) (hgathers : c.Gathers) :
    ∃ result, (inflow c.reads).2 = some result ∧
      Service.intake c.requests = ((inflow c.reads).1, result) := by
  have hstream {m : Method} (hm : Method.ofPath? c.path = some m) : readsOne m ≠ true :=
    fun hone => Account.not_gathers hm hone hgathers
  cases h with
  | unknown hm =>
    rcases hgathers with hm' | hm'
    · cases hm.symm.trans hm'
    · cases hm.symm.trans hm'
  | refused m body got status hm hone hreads h => exact absurd hone (hstream hm)
  | answered m body g o hm hone hreads hlooked hs => exact absurd hone (hstream hm)
  | delayed m body g n request o hm hone hreads hlooked hs ho => exact absurd hone (hstream hm)
  | undecodable body status hm hreads hr => exact absurd rfl (hstream hm)
  | expanded body r hm hreads hr => exact absurd rfl (hstream hm)
  | collected bodies got hm hreads hlast =>
    refine stopped_of_last hreads (hlast.imp_right ?_)
    rintro ⟨s, hs⟩
    refine ⟨s, ?_⟩
    rw [Service.collect_eq, Outcome.of_result] at hs
    cases hresult : (Service.intake c.requests).2 with
    | ok => simp [hresult, Except.map] at hs
    | error t => simpa [hresult, Except.map] using hs
  | chatted bodies got hm hreads hlast =>
    refine stopped_of_last hreads (hlast.imp_right ?_)
    rintro ⟨s, hs⟩
    refine ⟨s, ?_⟩
    rwa [Service.chat, Service.chatResponses_eq, Outcome.of_result] at hs

end EchoServer.Connection
