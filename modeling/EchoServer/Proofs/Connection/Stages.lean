import EchoServer.Proofs.Connection.Accounts
import Mathlib.Data.List.Forall2

/-! `Stage` says in each phase what the account of the running call knows of it, and how far its
block has come. There is one lemma for each kind of move. -/
namespace EchoServer.Connection

open Wire (Inbox Received)

/-- The block that a call with this account ends with. -/
def Account.Yields (c : Account) (b : Block) : Prop := ∃ sent o, c.Ends sent o ∧ b = blockOf sent o

/-- The frames are a block for each account. -/
def Closed (accounts : List Account) (frames : List ServerFrame) : Prop :=
  ∃ blocks, List.Forall₂ Account.Yields accounts blocks ∧ frames = blocks.flatMap Block.frames

theorem closed_nil : Closed [] [] := ⟨[], .nil, rfl⟩

theorem closed_snoc {front : List Account} {base : List ServerFrame} {c : Account}
    {sent : List Json} {o : Outcome (Option Json)} (h : Closed front base) (hends : c.Ends sent o) :
    Closed (front ++ [c]) (base ++ (blockOf sent o).frames) := by
  obtain ⟨blocks, hblocks, rfl⟩ := h
  have hlast : List.Forall₂ Account.Yields [c] [blockOf sent o] :=
    .cons ⟨sent, o, hends, rfl⟩ .nil
  exact ⟨blocks ++ [blockOf sent o], List.rel_append hblocks hlast, by simp⟩

/-- Frames for accounts: a block for each but the last one at most, and messages for that one if
it may have some. -/
def Told (accounts : List Account) (frames : List ServerFrame) : Prop :=
  ∃ front rest base, ∃ bodies : List Json, accounts = front ++ rest ∧ rest.length ≤ 1 ∧
    Closed front base ∧ frames = base ++ bodies.map .message ∧
    (bodies ≠ [] → ∃ c, rest = [c] ∧ c.Speaks)

theorem told_of_closed {accounts : List Account} {frames : List ServerFrame}
    (h : Closed accounts frames) : Told accounts frames :=
  ⟨accounts, [], frames, [], by simp, by simp, h, by simp, by simp⟩

theorem told_of_open {front : List Account} {base : List ServerFrame} {c : Account}
    {bodies : List Json} (h : Closed front base) (hspeaks : bodies ≠ [] → c.Speaks) :
    Told (front ++ [c]) (base ++ bodies.map .message) :=
  ⟨front, [c], base, bodies, rfl, by simp, h, rfl, fun hb => ⟨c, rfl, hspeaks hb⟩⟩

theorem told_of_silent {front : List Account} {base : List ServerFrame} (c : Account)
    (h : Closed front base) : Told (front ++ [c]) base :=
  ⟨front, [c], base, [], rfl, by simp, h, by simp, by simp⟩

/-- The account is that of the call. -/
structure Account.Of (c : Account) (call : Call) : Prop where
  method : Method.ofPath? c.path = some call.method
  metadata : c.metadata = call.metadata

/-- The call is under way behind calls that are closed, and nothing is written for it. -/
def Serves (taken : List Account) (s : State) (call : Call) (c : Account) : Prop :=
  c.Of call ∧ s.outbox.current = none ∧
    ∃ front, taken = front ++ [c] ∧ Closed front s.outbox.written

/-- The handler reads requests in between. -/
def Handler.Listens : Handler → Prop
  | .listen => True
  | .reply _ => True
  | _ => False

/-- What the handler of a stream has handed over so far, from what it has got. -/
inductive Handed (c : Account) (call : Call) : Handler → List EchoResponse → Prop
  | start (body) (hm : call.method = .expand) (hreads : c.reads = [asked body, .frame .halfClose]) :
      Handed c call (.start body) []
  | send (body r pending handed) (hm : call.method = .expand)
      (hreads : c.reads = [asked body, .frame .halfClose])
      (hr : Service.decodeRequest EchoRequest.decoder body = .ok r)
      (h : handed ++ pending = Service.expandResponses r) :
      Handed c call (.send pending (Service.expandVerdict r)) handed
  | listen (bodies : List Json) (handed) (hm : call.method = .chat)
      (hreads : c.reads = bodies.map asked)
      (h : Service.chatResponses none c.requests = (handed, .ok ())) : Handed c call .listen handed
  | reply (bodies : List Json) (handed x) (hm : call.method = .chat)
      (hreads : c.reads = bodies.map asked)
      (h : Service.chatResponses none c.requests = (handed ++ [x], .ok ())) :
      Handed c call (.reply x) handed
  | done (result handed)
      (h : c.Ends (handed.map bodyOf) ((Outcome.of call.metadata result).map fun _ => none)) :
      Handed c call (.done result) handed

/-- The responses of a stream are on their way: these messages were begun. -/
structure Streaming (c : Account) (base : List ServerFrame) (bodies : List Json) (s : State)
    (call : Call) (t : Stream) (watch : Watch) : Prop where
  isOf : c.Of call
  written : base.length ≤ s.outbox.written.length
  sent : s.sent = base ++ bodies.map .message
  going : t.forwarding = true → ∃ handed,
    bodies ++ t.queue.map bodyOf = handed.map bodyOf ∧ Handed c call t.handler handed
  lost : t.forwarding = false → s.outbox.current = none
  speaks : bodies ≠ [] → c.Speaks
  listens : t.handler.Listens → call.method = .chat ∧ watch = .off ∧ s.queued = none
  watches : watch = .on → s.queued = none

/-- What is known of the calls that were taken up, and of what is written for them. -/
def Stage (taken : List Account) (s : State) : Prop :=
  match s.phase with
  | .idle => s.outbox.current = none ∧ (Closed taken s.outbox.written ∨
      (∃ front c, taken = front ++ [c] ∧ Closed front s.outbox.written) ∧ s.queued = none ∧
        s.inbox = ⟨[], [], true⟩)
  | .gather call body => s.queued = none ∧ readsOne call.method = true ∧
      ∃ c, Serves taken s call c ∧ c.reads = body.toList.map asked
  | .collect call contents => s.queued = none ∧ call.method = .collect ∧
      ∃ c, ∃ bodies : List Json, Serves taken s call c ∧ c.reads = bodies.map asked ∧
        c.requests.foldlM (fun acc item => item.bind (Service.collectStep acc)) [] = .ok contents
  | .work call (.request body) watch => (watch = .on → s.queued = none) ∧
      readsOne call.method = true ∧
      ∃ c, Serves taken s call c ∧ c.reads = [asked body, .frame .halfClose]
  | .work call (.delay _ request) watch => (watch = .on → s.queued = none) ∧
      readsOne call.method = true ∧
      ∃ c body g n, Serves taken s call c ∧ c.reads = [asked body, .frame .halfClose] ∧
        c.looked = some g ∧
        (Service.start call.method call.metadata body g.now g.registry).1 = .delayed n request
  | .work call (.stream t) watch => ∃ front c base bodies, taken = front ++ [c] ∧
      Closed front base ∧ Streaming c base bodies s call t watch
  | .close frames => ∃ front c base sent o, taken = front ++ [c] ∧ Closed front base ∧
      c.Ends sent o ∧ s.sent ++ frames = base ++ (blockOf sent o).frames ∧
      base.length ≤ s.outbox.written.length
  | .finished _ => Told taken s.outbox.written

section
variable {taken : List Account} {s : State}

theorem stage_idle_iff (hp : s.phase = .idle) :
    Stage taken s ↔ s.outbox.current = none ∧ (Closed taken s.outbox.written ∨
      (∃ front c, taken = front ++ [c] ∧ Closed front s.outbox.written) ∧ s.queued = none ∧
        s.inbox = ⟨[], [], true⟩) := by
  simp only [Stage, hp]

theorem stage_gather_iff {call : Call} {body : Option Json} (hp : s.phase = .gather call body) :
    Stage taken s ↔ s.queued = none ∧ readsOne call.method = true ∧
      ∃ c, Serves taken s call c ∧ c.reads = body.toList.map asked := by
  simp only [Stage, hp]

theorem stage_collect_iff {call : Call} {contents : List String}
    (hp : s.phase = .collect call contents) :
    Stage taken s ↔ s.queued = none ∧ call.method = .collect ∧
      ∃ c, ∃ bodies : List Json, Serves taken s call c ∧ c.reads = bodies.map asked ∧
        c.requests.foldlM (fun acc item => item.bind (Service.collectStep acc)) [] =
          .ok contents := by
  simp only [Stage, hp]

theorem stage_request_iff {call : Call} {body : Json} {watch : Watch}
    (hp : s.phase = .work call (.request body) watch) :
    Stage taken s ↔ (watch = .on → s.queued = none) ∧ readsOne call.method = true ∧
      ∃ c, Serves taken s call c ∧ c.reads = [asked body, .frame .halfClose] := by
  simp only [Stage, hp]

theorem stage_delay_iff {call : Call} {deadline : Nat} {request : BlockRequest} {watch : Watch}
    (hp : s.phase = .work call (.delay deadline request) watch) :
    Stage taken s ↔ (watch = .on → s.queued = none) ∧ readsOne call.method = true ∧
      ∃ c body g n, Serves taken s call c ∧ c.reads = [asked body, .frame .halfClose] ∧
        c.looked = some g ∧
        (Service.start call.method call.metadata body g.now g.registry).1 = .delayed n request := by
  simp only [Stage, hp]

theorem stage_stream_iff {call : Call} {t : Stream} {watch : Watch}
    (hp : s.phase = .work call (.stream t) watch) :
    Stage taken s ↔ ∃ front c base bodies, taken = front ++ [c] ∧ Closed front base ∧
      Streaming c base bodies s call t watch := by
  simp only [Stage, hp]

theorem stage_close_iff {frames : List ServerFrame} (hp : s.phase = .close frames) :
    Stage taken s ↔ ∃ front c base sent o, taken = front ++ [c] ∧ Closed front base ∧
      c.Ends sent o ∧ s.sent ++ frames = base ++ (blockOf sent o).frames ∧
      base.length ≤ s.outbox.written.length := by
  simp only [Stage, hp]

theorem stage_finished_iff {failure : Option Wire.FrameError} (hp : s.phase = .finished failure) :
    Stage taken s ↔ Told taken s.outbox.written := by
  simp only [Stage, hp]

theorem stage_finish {front : List Account} {c : Account} {base : List ServerFrame}
    {sent : List Json} {o : Outcome (Option Json)} (hp : s.phase = finish o)
    (hclosed : Closed front base) (hends : c.Ends sent o)
    (hsent : s.sent = base ++ sent.map .message)
    (hwritten : base.length ≤ s.outbox.written.length) : Stage (front ++ [c]) s := by
  refine (stage_close_iff hp).mpr ⟨front, c, base, sent, o, rfl, hclosed, hends, ?_, hwritten⟩
  rw [hsent, blockOf_frames, List.append_assoc]

/-- A call for which nothing is written yet ends. -/
theorem stage_end {front : List Account} {c : Account} {o : Outcome (Option Json)}
    (hp : s.phase = finish o) (hcur : s.outbox.current = none)
    (hclosed : Closed front s.outbox.written) (hends : c.Ends [] o) : Stage (front ++ [c]) s :=
  stage_finish hp hclosed hends (by simp [State.sent, hcur]) (Nat.le_refl _)

theorem Handed.speaks {c : Account} {call : Call} {handler : Handler} {handed : List EchoResponse}
    (hof : c.Of call) (h : Handed c call handler handed) (hne : handed ≠ []) : c.Speaks := by
  cases h with
  | start body hm hreads => exact absurd rfl hne
  | send body r pending handed hm hreads hr h =>
    refine Or.inl ⟨.expand, [body], hm ▸ hof.method, hreads, ?_, fun _ => ⟨body, rfl⟩⟩
    simpa using Account.takes_expand hr
  | listen bodies handed hm hreads h => exact Or.inr (hm ▸ hof.method)
  | reply bodies handed x hm hreads h => exact Or.inr (hm ▸ hof.method)
  | done result handed h => exact h.speaks (by simpa using hne)

/-- The handler of `Expand` looks at its request. -/
theorem handed_startExpand {c : Account} {call : Call} {body : Json} {handed : List EchoResponse}
    (hof : c.Of call) (h : Handed c call (.start body) handed) :
    Handed c call (startExpand body) handed := by
  cases h with
  | start body hm hreads =>
    have hexpand : Method.ofPath? c.path = some .expand := hm ▸ hof.method
    unfold startExpand
    cases hr : Service.decodeRequest EchoRequest.decoder body with
    | error status => exact .done _ _ (.undecodable body status hexpand hreads hr)
    | ok r => exact .send body r _ [] hm hreads hr rfl

/-- The handler of `Expand` has sent everything. -/
theorem handed_sent {c : Account} {call : Call} {verdict : Except Status Unit}
    {handed : List EchoResponse} (hof : c.Of call)
    (h : Handed c call (.send [] verdict) handed) : Handed c call (.done verdict) handed := by
  cases h with
  | send body r pending handed hm hreads hr h =>
    have hexpand : Method.ofPath? c.path = some .expand := hm ▸ hof.method
    have hends := Account.Ends.expanded body r hexpand hreads hr
    rw [List.append_nil] at h
    rw [hof.metadata] at hends
    rw [h]
    exact .done _ _ hends

theorem Handler.Listens.of_sends {handler next : Handler} {x : EchoResponse}
    (hx : handler.sends? = some (x, next)) (h : next.Listens) : handler.Listens := by
  unfold Handler.sends? at hx
  split at hx
  · obtain ⟨-, rfl⟩ := Prod.mk.inj (Option.some.inj hx)
    exact h.elim
  · trivial
  · cases hx

theorem handed_sends {c : Account} {call : Call} {handler next : Handler} {x : EchoResponse}
    {handed : List EchoResponse} (hx : handler.sends? = some (x, next))
    (h : Handed c call handler handed) : Handed c call next (handed ++ [x]) := by
  cases h with
  | send body r pending handed hm hreads hr h =>
    cases pending with
    | nil => cases hx
    | cons y rest =>
      obtain ⟨rfl, rfl⟩ : y = x ∧ Handler.send rest _ = next := by simpa [Handler.sends?] using hx
      exact .send body r rest _ hm hreads hr (by simpa using h)
  | reply bodies handed y hm hreads h =>
    obtain ⟨rfl, rfl⟩ : y = x ∧ Handler.listen = next := by simpa [Handler.sends?] using hx
    exact .listen bodies _ hm hreads h
  | start body hm hreads => cases hx
  | listen bodies handed hm hreads h => cases hx
  | done result handed h => cases hx

theorem requests_read (c : Account) (got : Received ClientFrame) :
    (c.read got).requests = c.requests ++ (requestOf got).toList := by
  unfold Account.requests Account.read
  rw [List.filterMap_append]
  rfl

/-- A stream of requests ends by itself only at `half_close`. -/
theorem halfClose_of_requestOf {got : Received ClientFrame} (h : requestOf got = none) :
    got = .frame .halfClose := by
  cases got with
  | frame frame =>
    cases frame with
    | halfClose => rfl
    | _ => cases h
  | ended => cases h
  | failed e => cases h

/-- What a stream of requests takes without failing is a message. -/
theorem message_of_requestOf {got : Received ClientFrame} {r : EchoRequest}
    (h : requestOf got = some (.ok r)) : ∃ body, got = asked body := by
  cases got with
  | frame frame =>
    cases frame with
    | message body => exact ⟨body, rfl⟩
    | _ => cases h
  | ended => cases h
  | failed e => cases h

theorem ok_of_bind {α β : Type} {item : Except Status α} {f : α → Except Status β} {b : β}
    (h : item.bind f = .ok b) : ∃ a, item = .ok a := by
  cases item with
  | ok a => exact ⟨a, rfl⟩
  | error s => cases h

/-- The handler of `Chat` ends at what it read last. -/
theorem handed_chatted {c : Account} {call : Call} {handed : List EchoResponse}
    {bodies : List Json} {got : Received ClientFrame} {result : Except Status Unit}
    (hof : c.Of call) (hm : call.method = .chat) (hreads : c.reads = bodies.map asked ++ [got])
    (hall : Service.chatResponses none c.requests = (handed, result))
    (hlast : got = .frame .halfClose ∨ ∃ s, result = .error s) :
    Handed c call (.done result) handed := by
  have hchat : Method.ofPath? c.path = some .chat := hm ▸ hof.method
  have hresult : Service.chat c.metadata none c.requests =
      (handed, .of call.metadata result) := by
    rw [Service.chat, hall, ← hof.metadata]
  have hfailed (h : ∃ s, result = .error s) :
      ∃ s, (Service.chat c.metadata none c.requests).2.result = .error s := by
    obtain ⟨s, rfl⟩ := h
    exact ⟨s, by rw [hresult]; rfl⟩
  have hends := Account.Ends.chatted bodies got hchat hreads (hlast.imp id hfailed)
  rw [hresult] at hends
  exact .done _ _ hends

theorem Account.Of.read {c : Account} {call : Call} (h : c.Of call) (got : Received ClientFrame) :
    (c.read got).Of call := ⟨h.method, h.metadata⟩

/-- The handler of `Chat` takes what it reads next. -/
theorem handed_onListen {c : Account} {call : Call} {handed : List EchoResponse}
    (hof : c.Of call) (h : Handed c call .listen handed) (got : Received ClientFrame) :
    Handed (c.read got) call (onListen got) handed := by
  cases h with
  | listen bodies handed hm hreads h =>
    have hread : (c.read got).reads = bodies.map asked ++ [got] := by rw [Account.read, hreads]
    unfold onListen
    cases hitem : requestOf got with
    | none =>
      refine handed_chatted (hof.read got) hm hread ?_ (Or.inl (halfClose_of_requestOf hitem))
      rw [requests_read, hitem]
      simpa using h
    | some item =>
      have hall : (c.read got).requests = c.requests ++ [item] := by
        rw [requests_read, hitem]
        rfl
      have hstep := chatResponses_snoc item handed h
      rw [← hall] at hstep
      cases hr : item.bind Service.chatStep with
      | error s =>
        rw [hr] at hstep
        simp only [hr]
        exact handed_chatted (hof.read got) hm hread hstep (Or.inr ⟨s, rfl⟩)
      | ok response =>
        rw [hr] at hstep
        simp only [hr]
        obtain ⟨r, rfl⟩ := ok_of_bind hr
        obtain ⟨body, rfl⟩ := message_of_requestOf hitem
        refine .reply (bodies ++ [body]) handed response hm ?_ hstep
        rw [hread, List.map_append]
        rfl

end

/-- A read leaves the inbox of an empty stream that is closed as it is. -/
theorem poll_of_closed {i j : Inbox} {n : Nat} {got : Received ClientFrame}
    (hi : i = ⟨[], [], true⟩) (hpoll : i.poll ClientFrame.decoder n = some (some got, j)) :
    got = .ended ∧ j = i := by
  have hended : i.poll ClientFrame.decoder n = some (some .ended, i) :=
    (Wire.poll_eq_ended_iff _ _ _ _).mpr ⟨rfl, by simp [hi]⟩
  rw [hended] at hpoll
  obtain ⟨hgot, hinbox⟩ := Prod.mk.inj (Option.some.inj hpoll)
  exact ⟨(Option.some.inj hgot).symm, hinbox.symm⟩

section
variable {front : List Account} {c : Account} {s t : State} {call : Call}

/-- A call is taken up behind calls that are closed. -/
theorem stage_startCall (path : String) (metadata : Metadata) (place : Nat)
    (hp : s.phase = startCall path metadata) (hq : s.queued = none)
    (hcur : s.outbox.current = none) (hclosed : Closed front s.outbox.written) :
    Stage (front ++ [.opening path metadata place]) s := by
  have hserves (m : Method) (hm : Method.ofPath? path = some m) :
      Serves (front ++ [.opening path metadata place]) s ⟨m, metadata⟩
        (.opening path metadata place) :=
    ⟨⟨hm, rfl⟩, hcur, front, rfl, hclosed⟩
  unfold startCall at hp
  split at hp
  · rename_i hm
    exact stage_end hp hcur hclosed (.unknown hm)
  · rename_i hm
    exact (stage_collect_iff hp).mpr ⟨hq, rfl, _, [], hserves _ hm, rfl, rfl⟩
  · rename_i hm
    refine (stage_stream_iff hp).mpr ⟨front, _, s.outbox.written, [], rfl, hclosed, ?_⟩
    exact
      { isOf := ⟨hm, rfl⟩
        written := Nat.le_refl _
        sent := by simp [State.sent, hcur]
        going := fun _ => ⟨[], rfl, .listen [] [] rfl rfl rfl⟩
        lost := fun h => by cases h
        speaks := fun h => absurd rfl h
        listens := fun _ => ⟨rfl, rfl, hq⟩
        watches := fun h => by cases h }
  · rename_i m hcollect hchat hm
    have hother : m ≠ .collect ∧ m ≠ .chat := ⟨hcollect, hchat⟩
    have hone : readsOne m = true := by simp [readsOne, hother]
    exact (stage_gather_iff hp).mpr ⟨hq, hone, _, hserves _ hm, rfl⟩

theorem stage_workOf (body : Json) (hp : s.phase = workOf call body) (hq : s.queued = none)
    (hone : readsOne call.method = true) (hof : c.Of call) (hcur : s.outbox.current = none)
    (hclosed : Closed front s.outbox.written)
    (hreads : c.reads = [asked body, .frame .halfClose]) : Stage (front ++ [c]) s := by
  unfold workOf at hp
  split at hp
  · rename_i hexpand
    refine (stage_stream_iff hp).mpr ⟨front, c, s.outbox.written, [], rfl, hclosed, ?_⟩
    exact
      { isOf := hof
        written := Nat.le_refl _
        sent := by simp [State.sent, hcur]
        going := fun _ => ⟨[], rfl, .start body hexpand hreads⟩
        lost := fun h => by cases h
        speaks := fun h => absurd rfl h
        listens := fun h => h.elim
        watches := fun _ => hq }
  · exact (stage_request_iff hp).mpr ⟨fun _ => hq, hone, c, ⟨hof, hcur, front, rfl, hclosed⟩,
      hreads⟩

/-- A call that needs a single request reads on. -/
theorem stage_onGather {body : Option Json} {got : Received ClientFrame} {n : Nat}
    (hpoll : s.inbox.poll ClientFrame.decoder n = some (some got, t.inbox))
    (hp : t.phase = onGather call body got) (hq : t.queued = none)
    (hone : readsOne call.method = true) (hof : c.Of call) (hcur : t.outbox.current = none)
    (hclosed : Closed front t.outbox.written) (hreads : c.reads = body.toList.map asked) :
    Stage (front ++ [c.read got]) t := by
  have hread : (c.read got).reads = body.toList.map asked ++ [got] := by
    rw [Account.read, hreads]
  have hserves : Serves (front ++ [c.read got]) t call (c.read got) :=
    ⟨hof.read got, hcur, front, rfl, hclosed⟩
  have hrefuse (status : Status) (h : Refusal body got status) (hp : t.phase = reject status) :
      Stage (front ++ [c.read got]) t :=
    stage_end hp hcur hclosed (.refused call.method body got status hof.method hone hread h)
  cases got with
  | frame frame =>
    cases frame with
    | message b =>
      cases body with
      | none => exact (stage_gather_iff hp).mpr ⟨hq, hone, _, hserves, hread⟩
      | some first => exact hrefuse secondRequest (.second b (by simp)) hp
    | halfClose =>
      cases body with
      | none => exact hrefuse noRequest (.empty rfl) hp
      | some b => exact stage_workOf b hp hq hone (hof.read _) hcur hclosed hread
    | cancel => exact hrefuse cancelledByPeer .cancelled hp
    | call path metadata => exact hrefuse callTooEarly (.tooEarly path metadata) hp
  | ended =>
    obtain ⟨hinbox, hbuffer, harrived, hclosed'⟩ := (Wire.poll_eq_ended_iff _ _ _ _).mp hpoll
    have hempty : t.inbox = ⟨[], [], true⟩ := by
      rw [hinbox]
      exact congr (congr (congrArg Inbox.mk hbuffer) harrived) hclosed'
    exact (stage_idle_iff hp).mpr ⟨hcur, Or.inr ⟨⟨front, _, rfl, hclosed⟩, hq, hempty⟩⟩
  | failed e =>
    exact (stage_finished_iff hp).mpr (told_of_silent _ hclosed)

/-- `Collect` reads on. -/
theorem stage_onCollect {contents : List String} {bodies : List Json}
    {got : Received ClientFrame} (hp : t.phase = onCollect call contents got)
    (hq : t.queued = none) (hm : call.method = .collect) (hof : c.Of call)
    (hcur : t.outbox.current = none) (hclosed : Closed front t.outbox.written)
    (hreads : c.reads = bodies.map asked)
    (hfold : c.requests.foldlM (fun acc item => item.bind (Service.collectStep acc)) [] =
      .ok contents) : Stage (front ++ [c.read got]) t := by
  have hcollect : Method.ofPath? (c.read got).path = some .collect := hm ▸ hof.method
  have hread : (c.read got).reads = bodies.map asked ++ [got] := by rw [Account.read, hreads]
  have hends (result : Except Status EchoResponse)
      (hresult : Service.collect (c.read got).metadata (c.read got).requests =
        .of (c.read got).metadata result)
      (hlast : got = .frame .halfClose ∨ ∃ s, result = .error s) :
      (c.read got).Ends [] ((Outcome.of call.metadata result).map fun r => some (bodyOf r)) := by
    have hend := Account.Ends.collected bodies got hcollect hread
      (hlast.imp id fun ⟨s, hs⟩ => ⟨s, by rw [hresult, Outcome.of_result, hs]⟩)
    rw [hresult, (hof.read got).metadata] at hend
    exact hend
  unfold onCollect at hp
  cases hitem : requestOf got with
  | none =>
    simp only [hitem] at hp
    have hresult : Service.collect (c.read got).metadata (c.read got).requests =
        .of (c.read got).metadata (.ok (Service.collectResponse contents)) := by
      rw [Service.collect, requests_read, hitem, Option.toList_none, List.append_nil, hfold]
      rfl
    exact stage_end hp hcur hclosed (hends _ hresult (Or.inl (halfClose_of_requestOf hitem)))
  | some item =>
    simp only [hitem] at hp
    have hall : (c.read got).requests.foldlM
        (fun acc item => item.bind (Service.collectStep acc)) [] =
          item.bind (Service.collectStep contents) := by
      rw [requests_read, hitem, Option.toList_some, List.foldlM_append, hfold]
      exact bind_pure (m := Except Status) (item.bind (Service.collectStep contents))
    cases hr : item.bind (Service.collectStep contents) with
    | error status =>
      simp only [hr] at hp hall
      have hresult : Service.collect (c.read got).metadata (c.read got).requests =
          .of (c.read got).metadata (.error status) := by
        rw [Service.collect, hall]
        rfl
      exact stage_end hp hcur hclosed (hends _ hresult (Or.inr ⟨status, rfl⟩))
    | ok contents' =>
      simp only [hr] at hp hall
      obtain ⟨r, rfl⟩ := ok_of_bind hr
      obtain ⟨body, rfl⟩ := message_of_requestOf hitem
      refine (stage_collect_iff hp).mpr ⟨hq, hm, _, bodies ++ [body],
        ⟨hof.read _, hcur, front, rfl, hclosed⟩, ?_, hall⟩
      rw [hread, List.map_append]
      rfl

end

section
variable {taken : List Account} {s : State} {call : Call} {work : Work}

theorem queued_of_watch (hp : s.phase = .work call work .on) (h : Stage taken s) :
    s.queued = none := by
  cases work with
  | request body => exact ((stage_request_iff hp).mp h).1 rfl
  | delay deadline request => exact ((stage_delay_iff hp).mp h).1 rfl
  | stream t =>
    obtain ⟨front, c, base, bodies, -, -, hstream⟩ := (stage_stream_iff hp).mp h
    exact hstream.watches rfl

/-- A watcher changes nothing that was said of the running call. -/
theorem stage_watch (inbox : Inbox) (queued : Option (String × Metadata)) (watch : Watch)
    (hp : s.phase = .work call work .on) (hq : watch = .on → queued = none)
    (h : Stage taken s) :
    Stage taken { s with inbox, queued, phase := .work call work watch } := by
  cases work with
  | request body =>
    obtain ⟨-, hone, c, hserves, hreads⟩ := (stage_request_iff hp).mp h
    exact (stage_request_iff rfl).mpr ⟨hq, hone, c, hserves, hreads⟩
  | delay deadline request =>
    obtain ⟨-, hone, c, body, g, n, hserves, hrest⟩ := (stage_delay_iff hp).mp h
    exact (stage_delay_iff rfl).mpr ⟨hq, hone, c, body, g, n, hserves, hrest⟩
  | stream t =>
    obtain ⟨front, c, base, bodies, htaken, hclosed, hstream⟩ := (stage_stream_iff hp).mp h
    refine (stage_stream_iff rfl).mpr ⟨front, c, base, bodies, htaken, hclosed, ?_⟩
    exact
      { isOf := hstream.isOf
        written := hstream.written
        sent := hstream.sent
        going := hstream.going
        lost := hstream.lost
        speaks := hstream.speaks
        listens := fun hl => by
          obtain ⟨-, hwatch, -⟩ := hstream.listens hl
          cases hwatch
        watches := hq }

end

section
variable {taken : List Account} {s : State}

/-- What is said of a phase does not depend on the bytes that wait to be read, save that a call
that was given up has none behind it. -/
theorem stage_inbox (inbox : Inbox) (hin : s.inbox = ⟨[], [], true⟩ → inbox = ⟨[], [], true⟩)
    (gone : Bool) (h : Stage taken s) :
    Stage taken { s with inbox, outbox := { s.outbox with gone } } := by
  unfold Stage at h ⊢
  cases hp : s.phase with
  | idle =>
    simp only [hp] at h ⊢
    exact ⟨h.1, h.2.imp id fun ⟨hopen, hq, hempty⟩ => ⟨hopen, hq, hin hempty⟩⟩
  | work call work watch =>
    cases work with
    | stream x =>
      simp only [hp] at h ⊢
      obtain ⟨front, c, base, bodies, htaken, hclosed, hstream⟩ := h
      refine ⟨front, c, base, bodies, htaken, hclosed, ?_⟩
      exact
        { isOf := hstream.isOf
          written := hstream.written
          sent := hstream.sent
          going := hstream.going
          lost := hstream.lost
          speaks := hstream.speaks
          listens := hstream.listens
          watches := hstream.watches }
    | _ =>
      simp only [hp] at h ⊢
      exact h
  | _ =>
    simp only [hp] at h ⊢
    exact h

/-- The handler of a stream moves, or its queue does. -/
theorem stage_stream_move {call : Call} {x y : Stream} {watch : Watch}
    (hp : s.phase = .work call (.stream x) watch) (hf : y.forwarding = x.forwarding)
    (hlistens : y.handler.Listens → x.handler.Listens)
    (hgoing : ∀ c bodies, c.Of call → x.forwarding = true →
      (∃ handed, bodies ++ x.queue.map bodyOf = handed.map bodyOf ∧
        Handed c call x.handler handed) →
      ∃ handed, bodies ++ y.queue.map bodyOf = handed.map bodyOf ∧ Handed c call y.handler handed)
    (h : Stage taken s) : Stage taken { s with phase := .work call (.stream y) watch } := by
  obtain ⟨front, c, base, bodies, htaken, hclosed, hstream⟩ := (stage_stream_iff hp).mp h
  refine (stage_stream_iff rfl).mpr ⟨front, c, base, bodies, htaken, hclosed, ?_⟩
  exact
    { isOf := hstream.isOf
      written := hstream.written
      sent := hstream.sent
      going := fun hy => hgoing c bodies hstream.isOf (hf ▸ hy) (hstream.going (hf ▸ hy))
      lost := fun hy => hstream.lost (hf ▸ hy)
      speaks := hstream.speaks
      listens := fun hl => hstream.listens (hlistens hl)
      watches := hstream.watches }

/-- Writing on keeps the frames that were begun. -/
theorem stage_push {outbox : Outbox} (hw : s.phase.Writes)
    (hsent : { s with outbox }.sent = s.sent)
    (hwritten : s.outbox.written.length ≤ outbox.written.length)
    (hcur : s.outbox.current ≠ none) (h : Stage taken s) : Stage taken { s with outbox } := by
  unfold Phase.Writes at hw
  split at hw
  · rename_i frames hp
    obtain ⟨front, c, base, sent, o, htaken, hclosed, hends, hframes, hbase⟩ :=
      (stage_close_iff hp).mp h
    refine (stage_close_iff (s := { s with outbox }) hp).mpr
      ⟨front, c, base, sent, o, htaken, hclosed, hends, ?_, Nat.le_trans hbase hwritten⟩
    rw [hsent, hframes]
  · rename_i call x watch hp
    obtain ⟨front, c, base, bodies, htaken, hclosed, hstream⟩ := (stage_stream_iff hp).mp h
    refine (stage_stream_iff (s := { s with outbox }) hp).mpr
      ⟨front, c, base, bodies, htaken, hclosed, ?_⟩
    exact
      { isOf := hstream.isOf
        written := Nat.le_trans hstream.written hwritten
        sent := hsent.trans hstream.sent
        going := hstream.going
        lost := fun hf => absurd (hstream.lost hf) hcur
        speaks := hstream.speaks
        listens := hstream.listens
        watches := hstream.watches }
  · exact hw.elim

/-- A peer that is gone gets no more than the messages before the frame that failed. -/
theorem stage_failStream {call : Call} {x : Stream} {watch : Watch} {f : ServerFrame} {n : Nat}
    (hp : s.phase = .work call (.stream x) watch) (hcur : s.outbox.current = some (f, n))
    (h : Stage taken s) :
    Stage taken { s with outbox := { s.outbox with current := none },
                         phase := .work call (.stream { x with forwarding := false }) watch } := by
  obtain ⟨front, c, base, bodies, htaken, hclosed, hstream⟩ := (stage_stream_iff hp).mp h
  -- the frame that failed is the last message that was begun
  have hsent : s.outbox.written ++ [f] = base ++ bodies.map ServerFrame.message := by
    have hsent := hstream.sent
    simpa [State.sent, hcur] using hsent
  have hlen := congrArg List.length hsent
  simp only [List.length_append, List.length_cons, List.length_nil, List.length_map] at hlen
  have hbase := hstream.written
  rcases List.eq_nil_or_concat bodies with rfl | ⟨before, last, rfl⟩
  · simp at hlen
    omega
  · rw [List.concat_eq_append, List.map_append, ← List.append_assoc] at hsent
    obtain ⟨hwritten, -⟩ := List.append_inj' hsent rfl
    refine (stage_stream_iff rfl).mpr ⟨front, c, base, before, htaken, hclosed, ?_⟩
    exact
      { isOf := hstream.isOf
        written := hbase
        sent := by simpa [State.sent, Outbox.written] using hwritten
        going := fun hf => by cases hf
        lost := fun _ => rfl
        speaks := fun _ => hstream.speaks (by simp)
        listens := hstream.listens
        watches := hstream.watches }

theorem told_of_messages {front : List Account} {base : List ServerFrame} {c : Account}
    {bodies : List Json} {written : List ServerFrame} (hclosed : Closed front base)
    (hspeaks : bodies ≠ [] → c.Speaks) (hpart : written <+: base ++ bodies.map .message)
    (hbase : base.length ≤ written.length) : Told (front ++ [c]) written := by
  have htake : written = base ++ (bodies.take (written.length - base.length)).map .message := by
    calc
      written = (base ++ bodies.map ServerFrame.message).take written.length :=
        List.prefix_iff_eq_take.mp hpart
      _ = base ++ (bodies.take (written.length - base.length)).map .message := by
        rw [List.take_append, List.take_of_length_le hbase, List.map_take]
  rw [htake]
  refine told_of_open hclosed fun hne => hspeaks ?_
  rintro rfl
  exact hne (List.take_nil)

/-- What is written of the last frames of a call is some messages, or all of its block. -/
theorem told_of_close {frames : List ServerFrame} (hp : s.phase = .close frames)
    (h : Stage taken s) : Told taken s.outbox.written := by
  obtain ⟨front, c, base, sent, o, rfl, hclosed, hends, hframes, hbase⟩ :=
    (stage_close_iff hp).mp h
  have hpart : s.outbox.written <+: base ++ (blockOf sent o).frames := by
    rw [← hframes, State.sent, List.append_assoc]
    exact List.prefix_append _ _
  rw [Block.frames, ← List.append_assoc, List.prefix_concat_iff] at hpart
  rcases hpart with hall | hpart
  · have hclosed' := closed_snoc hclosed hends
    rw [Block.frames, ← List.append_assoc, ← hall] at hclosed'
    exact told_of_closed hclosed'
  · exact told_of_messages hclosed hends.speaks_of_bodies hpart hbase

end

theorem told_of_stage {taken : List Account} {s : State} (h : Stage taken s) :
    Told taken s.outbox.written := by
  have hserved {call : Call} {c : Account} (h : Serves taken s call c) :
      Told taken s.outbox.written := by
    obtain ⟨-, -, front, rfl, hclosed⟩ := h
    exact told_of_silent c hclosed
  cases hp : s.phase with
  | idle =>
    obtain ⟨-, hclosed | ⟨⟨front, c, rfl, hclosed⟩, -⟩⟩ := (stage_idle_iff hp).mp h
    · exact told_of_closed hclosed
    · exact told_of_silent c hclosed
  | gather call body =>
    obtain ⟨-, -, c, hserves, -⟩ := (stage_gather_iff hp).mp h
    exact hserved hserves
  | collect call contents =>
    obtain ⟨-, -, c, bodies, hserves, -⟩ := (stage_collect_iff hp).mp h
    exact hserved hserves
  | work call work watch =>
    cases work with
    | request body =>
      obtain ⟨-, -, c, hserves, -⟩ := (stage_request_iff hp).mp h
      exact hserved hserves
    | delay deadline request =>
      obtain ⟨-, -, c, body, g, n, hserves, -⟩ := (stage_delay_iff hp).mp h
      exact hserved hserves
    | stream x =>
      obtain ⟨front, c, base, bodies, rfl, hclosed, hstream⟩ := (stage_stream_iff hp).mp h
      refine told_of_messages hclosed hstream.speaks ?_ hstream.written
      rw [← hstream.sent]
      exact List.prefix_append _ _
  | close frames => exact told_of_close hp h
  | finished failure => exact (stage_finished_iff hp).mp h

end EchoServer.Connection
