import EchoServer.Proofs.Connection.Awaiting
import EchoServer.Proofs.Connection.Injected

namespace EchoServer.Connection

open Service (decodeRequest)
open Wire (Inbox Received)

/-- Where nothing is to be read, nobody reads. -/
theorem exists_step_of_dry (clock : Clock) {start : State × Registry} {accounts : List Account}
    {h : History} {s t : State} {r r' : Registry} (hrun : Recorded start accounts h (s, r))
    (hdry : Dry s.inbox) (hmove : Move clock (s, r) (t, r')) (hwhole : s.isBroken = false)
    (hwork : ∀ call body watch, s.phase ≠ .work call (.request body) watch) :
    ∃ h', Recorded start accounts h' (t, r') := by
  have hpoll (n : Nat) : s.inbox.poll ClientFrame.decoder n = none :=
    (Wire.poll_eq_none_iff _ _ _).mpr hdry
  have hears (got : Received ClientFrame) : ¬ Hears s got t := by
    rintro ⟨k, n, inbox, -, -, h⟩
    cases (hpoll n).symm.trans h
  have hmeets (got : Received ClientFrame) : ¬ Meets s got t := by
    intro h
    obtain ⟨⟨n, inbox, h⟩, -⟩ := h.gets
    cases (hpoll n).symm.trans h
  have hrun' := Recorded.step accounts h s r t r' clock hrun (hmove.step hwhole)
    hears hmeets
  have hlook : lookedAt clock r s t = [] :=
    lookedAt_eq_nil clock r t fun call body watch hp => absurd hp (hwork call body watch)
  rw [hlook] at hrun'
  exact ⟨_, hrun'⟩

/-- A new connection takes up the call that is sent to it. -/
theorem exists_opened (clock : Clock) (registry : Registry) (path : String) (rest : List UInt8)
    (hdepth : (ClientFrame.call path .empty).toJson.depth < 128)
    (hsmall : (ClientFrame.call path .empty).toJson.print.length ≤ Wire.maxFrameSize) :
    ∃ place h, Recorded (State.init 16 true, registry) [.opening path .empty place] h
      (reading rest (startCall path .empty), registry) := by
  have hbytes : Wire.encode (ClientFrame.call path .empty).toJson ++ rest ≠ [] := by
    simp [Wire.encode_eq, Wire.lengthLine_ne_nil]
  obtain ⟨h, hfetched⟩ := exists_fetched clock registry _ hbytes
  have hcall := poll_sent (.call path .empty) rest hdepth hsmall
  exact ⟨_, _, .meet [] _ _ _ _ _ clock _ hfetched
    ((Move.read _ _ 0 _ _ _ rfl hcall).step rfl) (.idle 0 _ rfl rfl hcall)⟩

/-- A peer that takes what comes is sent the last frames of a call. -/
theorem exists_written (clock : Clock) {start : State × Registry} {accounts : List Account}
    {h : History} {r : Registry} {inbox : Inbox} {log frames : List ServerFrame}
    {queued : Option (String × Metadata)} {capacity : Nat} (hdry : Dry inbox)
    (hrun : Recorded start accounts h
      (⟨inbox, ⟨log, none, none, false⟩, queued, capacity, .close frames⟩, r)) :
    ∃ h', Recorded start accounts h'
      (⟨inbox, ⟨frames.reverse ++ log, none, none, false⟩, queued, capacity, .idle⟩, r) := by
  induction frames generalizing log h with
  | nil =>
    exact exists_step_of_dry clock hrun hdry (.endLast _ r rfl rfl) rfl (fun _ _ _ h => by cases h)
  | cons f rest ih =>
    obtain ⟨h₁, hbegun⟩ := exists_step_of_dry clock hrun hdry (.beginLast _ r f rest rfl rfl) rfl
      (fun _ _ _ h => by cases h)
    obtain ⟨h₂, hwritten⟩ := exists_step_of_dry clock hbegun hdry
      (.write _ r f _ ⟨f :: log, none, none, false⟩ trivial rfl rfl) rfl
      (fun _ _ _ h => by cases h)
    obtain ⟨h₃, hrest⟩ := ih hwritten
    refine ⟨h₃, ?_⟩
    rw [List.reverse_cons, List.append_assoc]
    exact hrest

/-- A call of `Chat` ends with an echo of each content, and with the end of its stream. -/
theorem Account.Ends.of_chat {c : Account} {sent : List Json} {o : Outcome (Option Json)}
    (h : c.Ends sent o) (hm : Method.ofPath? c.path = some .chat) :
    ∃ result, (inflow c.reads).2 = some result ∧ (blockOf sent o).frames =
      (inflow c.reads).1.map echoed ++ [closing c.metadata result] := by
  obtain ⟨result, hstop, hintake⟩ := h.stopped (Or.inr hm)
  obtain ⟨hsent, ho⟩ := (h.of_stream hm rfl).2 rfl
  have hchat : Service.chat c.metadata none c.requests =
      ((inflow c.reads).1.map .ofContent, .of c.metadata result) := by
    rw [Service.chat, Service.chatResponses_eq, hintake]
  refine ⟨result, hstop, ?_⟩
  rw [blockOf_frames, hsent, ho, hchat, List.map_map, List.map_map]
  cases result with
  | ok => rfl
  | error s => rfl

theorem code_of_undecodable {body : Json} {s : Status}
    (h : decodeRequest EchoRequest.decoder body = .error s) : s.code = .internal := by
  unfold decodeRequest at h
  split at h
  · cases h
  · obtain rfl := Except.error.inj h
    rfl

/-- Where nobody can move, what is written for a call of `Chat` is an echo of each of its requests
before the first event that ends the stream, and its trailers if that event has come. -/
theorem chat_echoes_as_it_goes :
    ((∀ body s, decodeRequest EchoRequest.decoder body = .error s → s.code = .internal) ∧
      callTooEarly.code = .internal ∧ cancelledByPeer.code = .cancelled ∧
      closedByPeer.code = .cancelled ∧ ∀ e, (connectionFailed e).code = .cancelled) ∧
    (∀ events more result, (inflow events).2 = some result →
      inflow (events ++ more) = inflow events) ∧
    (WellFounded fun t s => Next s t) ∧
    ∀ (capacity : Nat) (registry : Registry) (accounts front back : List Account) (c : Account)
        (h : History) (a : State × Registry) (clock : Clock),
      Recorded (State.init capacity true, registry) accounts h a → a.1.outbox.gone = false →
      Quiet clock a → accounts = front ++ c :: back → (back ≠ [] ∨ a.1.queued = none) →
      Method.ofPath? c.path = some .chat →
        c.Reported front back h a.1 ((inflow c.reads).1.map echoed ++
          ((inflow c.reads).2.map (closing c.metadata)).toList) := by
  refine ⟨⟨fun _ _ => code_of_undecodable, rfl, rfl, rfl, fun _ => rfl⟩,
    fun _ more _ hstop => inflow_append hstop more, next_wellFounded, ?_⟩
  intro capacity registry accounts front back c h a clock hrun hgone hquiet hsplit htaken hm
  apply reported_of_quiet hrun hgone hquiet hsplit htaken (Or.inr hm)
  · intro sent o hends
    obtain ⟨result, hstop, hblock⟩ := hends.of_chat hm
    rw [hblock, hstop]
    rfl
  · intro frames hlistens hgoes
    cases hlistens with
    | collect hm' => cases hm.symm.trans hm'
    | chat hm' => simp [hgoes]

/-- The message `hi`. -/
def hi : Json := .object [("content", .string "hi")]

/-- The connection that has echoed the message, and waits for the next one. -/
def greeted : State :=
  { reading [] (listening ⟨.chat, .empty⟩) with
    outbox := { Outbox.empty true with log := [echoed "hi"] } }

/-- A call of `Chat` with one message so far. -/
theorem chat_echoes_as_it_goes_greeting :
    ∃ c h a, (Recorded (State.init 16 true, .empty) [c] h a ∧ a.1.outbox.gone = false ∧
        Quiet ⟨0, epoch⟩ a ∧ a.1.queued = none ∧ Method.ofPath? c.path = some .chat) ∧
      c.Reported [] [] h a.1 [echoed "hi"] := by
  have hchat : Method.ofPath? "Chat" = some .chat := by decide +kernel
  have hcall : (ClientFrame.call "Chat" .empty).toJson.depth < 128 ∧
      (ClientFrame.call "Chat" .empty).toJson.print.length ≤ Wire.maxFrameSize := by
    decide +kernel
  have hmessage : (ClientFrame.message hi).toJson.depth < 128 ∧
      (ClientFrame.message hi).toJson.print.length ≤ Wire.maxFrameSize := by decide +kernel
  obtain ⟨place, h₁, hmet⟩ := exists_opened ⟨0, epoch⟩ .empty "Chat"
    (Wire.encode (ClientFrame.message hi).toJson ++ []) hcall.1 hcall.2
  have hstart : startCall "Chat" .empty = listening ⟨.chat, .empty⟩ := by
    simp only [startCall, hchat]
    rfl
  rw [hstart] at hmet
  obtain ⟨h₂, hheard⟩ := exists_heard ⟨0, epoch⟩ hmet Phase.noConfusion rfl
    (poll_sent _ [] hmessage.1 hmessage.2)
  have hdry : Dry ⟨[], [], false⟩ := ⟨rfl, rfl, rfl⟩
  -- the handler has the echo in hand, sends it, and waits; the forwarder takes and writes it
  obtain ⟨h₃, hsent⟩ := exists_step_of_dry ⟨0, epoch⟩ hheard hdry
    (.send _ _ _ _ (.ofContent "hi") .listen .off rfl rfl rfl (by decide)) rfl
    (fun _ _ _ h => by cases h)
  obtain ⟨h₄, hbegun⟩ := exists_step_of_dry ⟨0, epoch⟩ hsent hdry
    (.forward _ _ _ _ (.ofContent "hi") [] .off rfl rfl rfl rfl) rfl (fun _ _ _ h => by cases h)
  obtain ⟨h₅, hwritten⟩ : ∃ h, Recorded (State.init 16 true, .empty) _ h (greeted, .empty) :=
    exists_step_of_dry ⟨0, epoch⟩ hbegun hdry (.write _ _ (echoed "hi") _ _ trivial rfl rfl) rfl
      (fun _ _ _ h => by cases h)
  have hquiet : Quiet ⟨0, epoch⟩ (greeted, .empty) :=
    ⟨rfl, still_iff_move_eq_none.mpr rfl⟩
  obtain ⟨-, -, -, hall⟩ := chat_echoes_as_it_goes
  have hreported := hall 16 .empty _ [] [] _ h₅ _ ⟨0, epoch⟩ hwritten rfl hquiet rfl (Or.inr rfl)
    hchat
  exact ⟨_, h₅, _, ⟨hwritten, rfl, hquiet, rfl, hchat⟩, hreported⟩

/-- The contents of a stream in one text: the empty ones are left out. -/
def joined (contents : List String) : String := " ".intercalate (contents.filter (· ≠ ""))

/-- What `Collect` writes when its stream has come to that: nothing before the end of the stream,
and no message behind a failure. -/
def gathered (metadata : Metadata) :
    List String × Option (Except Status Unit) → List ServerFrame
  | (_, none) => []
  | (contents, some (.ok ())) =>
    [.message (bodyOf (.ofContent (joined contents))), closing metadata (.ok ())]
  | (_, some (.error s)) => [closing metadata (.error s)]

theorem Account.Ends.of_collect {c : Account} {sent : List Json} {o : Outcome (Option Json)}
    (h : c.Ends sent o) (hm : Method.ofPath? c.path = some .collect) :
    (blockOf sent o).frames = gathered c.metadata (inflow c.reads) := by
  obtain ⟨result, hstop, hintake⟩ := h.stopped (Or.inl hm)
  obtain ⟨hsent, ho⟩ := (h.of_stream hm rfl).1 rfl
  have hinflow : inflow c.reads = ((inflow c.reads).1, some result) := Prod.ext rfl hstop
  rw [blockOf_frames, hsent, ho, Service.collect_eq, hintake, hinflow]
  cases result with
  | ok => rfl
  | error s => rfl

/-- `Collect` joins the contents that are not empty, or fails with the first item that is a failure.
Nothing is written for it before its end. -/
theorem collect_joins_or_fails :
    (∀ (metadata : Metadata) (requests : List EchoRequest),
      (∀ r ∈ requests, Status.failure? r.error = none) →
        Service.collect metadata (requests.map .ok) = .of metadata (.ok (.ofContent
          (" ".intercalate ((requests.map (·.content)).filter (· ≠ "")))))) ∧
    (∀ (metadata : Metadata) (requests : List EchoRequest) (item : Except Status EchoRequest)
        (s : Status) (more : List (Except Status EchoRequest)),
      (∀ r ∈ requests, Status.failure? r.error = none) → Service.failure? item = some s →
        Service.collect metadata (requests.map .ok ++ item :: more) = .fail s) ∧
    (∀ items : List (Except Status EchoRequest), ∃ requests : List EchoRequest,
      (∀ r ∈ requests, Status.failure? r.error = none) ∧ (items = requests.map .ok ∨
        ∃ item s more, Service.failure? item = some s ∧
          items = requests.map .ok ++ item :: more)) ∧
    (∀ (metadata : Metadata) (items items' : List (Except Status EchoRequest)),
      ((items.filter fun item => !Service.isBlank item) =
        items'.filter fun item => !Service.isBlank item) →
      Service.collect metadata items = Service.collect metadata items') ∧
    (WellFounded fun t s => Next s t) ∧
    ∀ (capacity : Nat) (registry : Registry) (accounts front back : List Account) (c : Account)
        (h : History) (a : State × Registry) (clock : Clock),
      Recorded (State.init capacity true, registry) accounts h a → a.1.outbox.gone = false →
      Quiet clock a → accounts = front ++ c :: back → (back ≠ [] ∨ a.1.queued = none) →
      Method.ofPath? c.path = some .collect →
        c.Reported front back h a.1 (gathered c.metadata (inflow c.reads)) := by
  refine ⟨?_, ?_, Service.requests_or_failure, fun _ _ _ => Service.collect_of_filter_eq,
    next_wellFounded, ?_⟩
  · intro metadata requests hall
    rw [Service.collect_eq, Service.intake_of_requests requests hall]
    rfl
  · intro metadata requests item s more hall hitem
    rw [Service.collect_eq, Service.intake_of_failure requests hall hitem more]
    rfl
  · intro capacity registry accounts front back c h a clock hrun hgone hquiet hsplit htaken hm
    apply reported_of_quiet hrun hgone hquiet hsplit htaken (Or.inl hm)
    · exact fun sent o hends => hends.of_collect hm
    · intro frames hlistens hgoes
      have hinflow : inflow c.reads = ((inflow c.reads).1, none) := Prod.ext rfl hgoes
      rw [hinflow]
      cases hlistens with
      | collect hm' => rfl
      | chat hm' => cases hm.symm.trans hm'

/-- A message without content. -/
def blank : Json := .object []

/-- The connection that has answered with the two contents. -/
def joinedTwice : State :=
  { reading [] .idle with
    outbox := { Outbox.empty true with
      log := [.trailers .ok .empty, .message (bodyOf (.ofContent "hi hi"))] } }

/-- A call of `Collect` with two messages, and one without content between them. -/
theorem collect_joins_or_fails_twice :
    ∃ c h a, (Recorded (State.init 16 true, .empty) [c] h a ∧ a.1.outbox.gone = false ∧
        Quiet ⟨0, epoch⟩ a ∧ a.1.queued = none ∧ Method.ofPath? c.path = some .collect) ∧
      c.Reported [] [] h a.1
        [.message (bodyOf (.ofContent "hi hi")), .trailers .ok .empty] := by
  have hcollect : Method.ofPath? "Collect" = some .collect := by decide +kernel
  have hcall : (ClientFrame.call "Collect" .empty).toJson.depth < 128 ∧
      (ClientFrame.call "Collect" .empty).toJson.print.length ≤ Wire.maxFrameSize := by
    decide +kernel
  have hfits : ∀ f ∈ [ClientFrame.message hi, .message blank, .halfClose],
      f.toJson.depth < 128 ∧ f.toJson.print.length ≤ Wire.maxFrameSize := by decide +kernel
  have hpoll {f : ClientFrame} (hf : f ∈ [ClientFrame.message hi, .message blank, .halfClose])
      (rest : List UInt8) := poll_sent f rest (hfits f hf).1 (hfits f hf).2
  let ending := Wire.encode ClientFrame.halfClose.toJson ++ []
  let third := Wire.encode (ClientFrame.message hi).toJson ++ ending
  let second := Wire.encode (ClientFrame.message blank).toJson ++ third
  obtain ⟨place, h₁, hmet⟩ := exists_opened ⟨0, epoch⟩ .empty "Collect"
    (Wire.encode (ClientFrame.message hi).toJson ++ second) hcall.1 hcall.2
  have hstart : startCall "Collect" .empty = .collect ⟨.collect, .empty⟩ [] := by
    simp only [startCall, hcollect]
  rw [hstart] at hmet
  obtain ⟨h₂, hfirst⟩ := exists_heard ⟨0, epoch⟩ hmet Phase.noConfusion rfl
    (hpoll (List.mem_cons_self ..) second)
  obtain ⟨h₃, hsecond⟩ := exists_heard ⟨0, epoch⟩ hfirst Phase.noConfusion rfl
    (hpoll (List.mem_cons_of_mem _ (List.mem_cons_self ..)) third)
  obtain ⟨h₄, hthird⟩ := exists_heard ⟨0, epoch⟩ hsecond Phase.noConfusion rfl
    (hpoll (List.mem_cons_self ..) ending)
  obtain ⟨h₅, hended⟩ := exists_heard ⟨0, epoch⟩ hthird Phase.noConfusion rfl
    (hpoll (List.mem_cons_of_mem _ (List.mem_cons_of_mem _ (List.mem_cons_self ..))) [])
  have hdry : Dry ⟨[], [], false⟩ := ⟨rfl, rfl, rfl⟩
  obtain ⟨h₆, hwritten⟩ : ∃ h, Recorded (State.init 16 true, .empty) _ h (joinedTwice, .empty) :=
    exists_written ⟨0, epoch⟩ hdry hended
  have hquiet : Quiet ⟨0, epoch⟩ (joinedTwice, .empty) :=
    ⟨rfl, still_iff_move_eq_none.mpr rfl⟩
  obtain ⟨-, -, -, -, -, hall⟩ := collect_joins_or_fails
  have hreported := hall 16 .empty _ [] [] _ h₆ _ ⟨0, epoch⟩ hwritten rfl hquiet rfl (Or.inr rfl)
    hcollect
  exact ⟨_, h₆, _, ⟨hwritten, rfl, hquiet, rfl, hcollect⟩, hreported⟩

end EchoServer.Connection
