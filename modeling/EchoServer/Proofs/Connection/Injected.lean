import EchoServer.Proofs.Connection.Blocking
import EchoServer.Proofs.Connection.Groups
import EchoServer.Proofs.Connection.Limits
import EchoServer.Proofs.Connection.Tracked
import EchoServer.Proofs.Connection.Waiting

namespace EchoServer

open Json

/-- A status without floating-point numbers in its details is read as it is written. -/
theorem Status.reread_of_integersOnly (s : Status) (h : ∀ d ∈ s.details, IntegersOnly d.value) :
    s.reread = s := by
  have hdetails : s.details.map (fun d => { d with value := d.value.reread : Detail }) =
      s.details := by
    refine (List.map_congr_left fun d hd => ?_).trans (List.map_id _)
    rw [Json.reread_of_integersOnly d.value (h d hd)]
    rfl
  obtain ⟨code, message, details⟩ := s
  exact congrArg (Status.mk code message) hdetails

/-- A peer reads the frame as it was written, if it is within the limits of a reader. -/
def ServerFrame.Verbatim (f : ServerFrame) : Prop :=
  f.toJson.print.length ≤ Wire.maxFrameSize → f.toJson.depth < 128 → ∀ rest,
    Wire.parse ServerFrame.decoder (Wire.encode f.toJson ++ rest) =
      .ok (.complete f (Wire.encode f.toJson).length rest)

theorem ServerFrame.verbatim_of {f : ServerFrame} (hreread : f.reread = f)
    (hstored : f.canonical = f) : f.Verbatim := by
  intro hsize hdepth rest
  rw [Wire.parse_encode_serverFrame, if_neg (Nat.not_lt.mpr hsize), if_pos hdepth, hreread,
    hstored]

/-- A body without floating-point numbers is stored before it is written, and read as it is. -/
theorem verbatim_responseBody {v : Json} (h : v.reread = v) :
    (ServerFrame.message (Service.responseBody v)).Verbatim := by
  have hreread : v.canonical.reread = v.canonical := by rw [← Json.canonical_reread, h]
  exact ServerFrame.verbatim_of (congrArg ServerFrame.message hreread)
    (congrArg ServerFrame.message v.canonical_stored.1)

theorem Status.Stored.verbatim {s : Status} {n : Nat} (h : s.Stored n)
    (hints : ∀ d ∈ s.details, IntegersOnly d.value) (trailers : Metadata) :
    (ServerFrame.trailers s trailers).Verbatim :=
  ServerFrame.verbatim_of
    (congrArg (ServerFrame.trailers · trailers) (s.reread_of_integersOnly hints))
    (congrArg (ServerFrame.trailers · trailers) h.canonical)

theorem EchoResponse.reread_toJson (r : EchoResponse) : r.toJson.reread = r.toJson := by
  simp [toJson, Severity.toJson, Json.reread, rereadMembers]

/-- An operation has no other numbers than its error. -/
theorem Operation.reread_toJson (o : Operation)
    (h : ∀ s, o.result = some (.error s) → s.reread = s) : o.toJson.reread = o.toJson := by
  obtain ⟨name, done, endTime, result⟩ := o
  rcases result with _ | s | r
  · simp [toJson, Json.reread, rereadMembers, optionalMember, timeJson]
  · have hs : s.toJson.reread = s.toJson := by rw [← s.toJson_reread, h s rfl]
    simp [toJson, Json.reread, rereadMembers, optionalMember, timeJson, OperationResult.toJson, hs]
  · simp [toJson, Json.reread, rereadMembers, optionalMember, timeJson, OperationResult.toJson,
      WaitResponse.toJson]

namespace Connection

open Service (decodeRequest)
open Wire (Received)

/-- The bodies of messages that were read are stored, and nested no deeper than a frame allows. -/
theorem bodies_read {capacity : Nat} {reads : Bool} {registry : Registry}
    {accounts : List Account} {h : History} {a : State × Registry}
    (hrun : Recorded (State.init capacity reads, registry) accounts h a) :
    ∀ c ∈ accounts, ∀ body, asked body ∈ c.reads → body.depth ≤ 126 := by
  refine hrun.forall_accounts (fun _ _ _ body hbody => by cases hbody) ?_ ?_
  · intro s got t c hgot hc body hbody
    rcases List.mem_append.mp hbody with hbody | hbody
    · exact hc body hbody
    · cases hgot with
      | read k n inbox hbusy hk hpoll =>
        exact brings_of_poll hpoll body (List.mem_singleton.mp hbody).symm
  · intro accounts h clock s r t _ ih
    rcases look_eq s.queued accounts (lookedAt clock r s t) with
      hsame | ⟨front, c, back, g, rfl, hlook⟩
    · rwa [hsame]
    · rw [hlook]
      intro x hx
      rcases List.mem_append.mp hx with hx | hx
      · exact ih x (by simp [hx])
      · rcases List.mem_cons.mp hx with rfl | hx
        · exact ih c (by simp)
        · exact ih x (by simp [hx])

namespace Account

variable {c : Account} {s : Status} {sent messages : List Json} {o : Outcome (Option Json)}

/-- A carried status came with a request. -/
theorem Carries.stored (h : c.Carries s messages)
    (hread : ∀ body, asked body ∈ c.reads → body.depth ≤ 126) : s.Stored 125 := by
  have hecho {body : Json} {r : EchoRequest} (hbody : asked body ∈ c.reads)
      (hr : decodeRequest EchoRequest.decoder body = .ok r) (hs : r.error = some s) :
      s.Stored 125 :=
    Service.given_by_decodeRequest EchoRequest.decoder_gives (hread body hbody) hr s hs
  cases h with
  | echo body r hm hreads hr hs => exact hecho (by simp [hreads]) hr hs
  | expand body r hm hreads hr hs => exact hecho (by simp [hreads]) hr hs
  | block body r hm hreads hr hs =>
    have hbody : body.depth ≤ 126 := hread body (by simp [hreads])
    exact Service.given_by_decodeRequest BlockRequest.decoder_gives hbody hr s hs
  | collect before requests body r more hm hreads hbefore hr hs =>
    exact hecho (by simp [hreads]) hr hs
  | chat before requests body r more hm hreads hbefore hr hs =>
    exact hecho (by simp [hreads]) hr hs

theorem Carries.exists_responses (h : c.Carries s messages) :
    ∃ responses : List EchoResponse, messages = responses.map bodyOf := by
  cases h with
  | echo body r hm hreads hr hs => exact ⟨[], rfl⟩
  | expand body r hm hreads hr hs => exact ⟨(Text.words r.content).map .ofContent, by simp⟩
  | block body r hm hreads hr hs => exact ⟨[], rfl⟩
  | collect before requests body r more hm hreads hbefore hr hs => exact ⟨[], rfl⟩
  | chat before requests body r more hm hreads hbefore hr hs =>
    exact ⟨requests.map fun q => .ofContent q.content, by simp⟩

/-- A peer reads the failure, and the messages before it, as they were written. -/
theorem Carries.verbatim (h : c.Carries s messages)
    (hread : ∀ body, asked body ∈ c.reads → body.depth ≤ 126)
    (hints : ∀ d ∈ s.details, IntegersOnly d.value) :
    ∀ f ∈ (Block.mk messages s .empty).frames, f.toJson.depth < 128 ∧ f.Verbatim := by
  have hstored := h.stored hread
  obtain ⟨responses, rfl⟩ := h.exists_responses
  intro f hf
  rcases List.mem_append.mp hf with hf | hf
  · obtain ⟨body, hbody, rfl⟩ := List.mem_map.mp hf
    obtain ⟨r, -, rfl⟩ := List.mem_map.mp hbody
    have hdepth : (bodyOf r).depth ≤ 1 :=
      Nat.le_trans r.toJson.canonical_stored.2 (Nat.le_of_eq r.depth_toJson)
    refine ⟨?_, verbatim_responseBody r.reread_toJson⟩
    simp only [ServerFrame.toJson, Json.depth, Json.depthMembers]
    omega
  · obtain rfl := List.mem_singleton.mp hf
    have hbounded : (ServerFrame.trailers s .empty).Bounded := hstored
    have hdepth := hbounded.depth
    refine ⟨Nat.lt_of_le_of_ne hdepth.1 fun heq => ?_, hstored.verbatim hints _⟩
    obtain ⟨o, t, hmessage, -⟩ := hdepth.2 heq
    cases hmessage

/-- What a call gets for the statuses that its requests carry, if `b` is written for it. -/
structure Verbatim (c : Account) (b : Block) : Prop where
  /-- A failure ends the call, behind the messages that are due before it. Only a call of `Block`
  may end in another way, if it is cancelled. -/
  failed : ∀ s messages, c.Carries s messages → s.code ≠ .ok →
    b = ⟨messages, s, .empty⟩ ∨ Method.ofPath? c.path = some .block ∧
      b = ⟨[], Service.cancelledInDelay, .empty⟩
  /-- A peer reads these frames as they were written, unless one is too large. -/
  read : ∀ s messages, c.Carries s messages → (∀ d ∈ s.details, IntegersOnly d.value) →
    ∀ f ∈ (Block.mk messages s .empty).frames, f.toJson.depth < 128 ∧ f.Verbatim
  /-- A wait succeeds, and starts an operation that shows the status when it is done. -/
  started : ∀ body r, Method.ofPath? c.path = some .wait →
    c.reads = [asked body, .frame .halfClose] → decodeRequest WaitRequest.decoder body = .ok r →
    ∃ g o, c.looked = some g ∧
      b = ⟨[Service.responseBody o.toJson], .ok, c.metadata.echoTrailers .empty⟩ ∧
      Registry.Shows o (Registry.nameOf g.registry.nextId) r g.now g.now ∧
      (Service.start .wait c.metadata body g.now g.registry).2.find? o.name =
        some ⟨r.doneAt g.now, r⟩
  /-- So does the operation whenever it is asked for. -/
  polled : ∀ body r, Method.ofPath? c.path = some .getOperation →
    c.reads = [asked body, .frame .halfClose] →
    decodeRequest GetOperationRequest.decoder body = .ok r →
    ∃ g, c.looked = some g ∧ ∀ request started,
      g.registry.find? r.name = some ⟨request.doneAt started, request⟩ →
      ∃ o, b = ⟨[Service.responseBody o.toJson], .ok, c.metadata.echoTrailers .empty⟩ ∧
        Registry.Shows o r.name request started g.now
  /-- A status that asks for nothing changes nothing. -/
  plain : ∀ m c', Method.ofPath? c.path = some m → c.Alike m c' → c'.Yields b

theorem Yields.verbatim {b : Block} (h : c.Yields b)
    (hread : ∀ body, asked body ∈ c.reads → body.depth ≤ 126)
    (hlooked : Method.ofPath? c.path = some .expand → c.looked = none) : c.Verbatim b := by
  obtain ⟨sent, o, hends, rfl⟩ := h
  refine ⟨fun s messages hcarries hs => hends.of_carries hcarries hs hlooked,
    fun s messages hcarries hints => hcarries.verbatim hread hints, ?_, ?_, ?_⟩
  · intro body r hm hreads hr
    obtain ⟨g, hg, hblock⟩ := hends.of_wait hm hreads hr
    refine ⟨g, _, hg, hblock, Registry.shows_snapshot _ r g.now g.now, ?_⟩
    simp only [Service.start, hr, Service.wait]
    exact Registry.find?_wait g.registry r g.now
  · intro body r hm hreads hr
    obtain ⟨g, hg, hblock⟩ := hends.of_getOperation hm hreads hr
    refine ⟨g, hg, fun request started hfind => ⟨_, hblock _ hfind, ?_⟩⟩
    exact Registry.shows_snapshot r.name request started g.now
  · exact fun m c' hm halike => ⟨sent, o, hends.of_alike hm halike, rfl⟩

end Account

section
variable {s t : State} {got : Received ClientFrame}

/-- Only a running call that waits for a frame hears one. -/
theorem Hears.waits (h : Hears s got t) : s.phase ≠ .idle ∧ s.reads? ≠ none := by
  cases h with
  | read k n inbox hbusy hk hpoll => exact ⟨hbusy, by simp [hk]⟩

/-- Who meets something has got it, and a watcher leaves the call under way. -/
theorem Meets.gets (h : Meets s got t) :
    (∃ n inbox, s.inbox.poll ClientFrame.decoder n = some (some got, inbox)) ∧
      (s.phase = .idle ∨ ∃ call work watch, t.phase = .work call work watch) := by
  cases h with
  | idle n inbox hp hq hpoll => exact ⟨⟨n, inbox, hpoll⟩, Or.inl hp⟩
  | watch n call work inbox hp hpoll => exact ⟨⟨n, inbox, hpoll⟩, Or.inr ⟨call, work, _, rfl⟩⟩

end

/-- The connection whose handler has the request `body`. -/
def asking (m : Method) (body : Json) : State :=
  reading [] (.work ⟨m, .empty⟩ (.request body) .on)

theorem exists_fetched (clock : Clock) (registry : Registry) (bytes : List UInt8)
    (hbytes : bytes ≠ []) : ∃ h, Recorded (State.init 16 true, registry) [] h
      (reading bytes .idle, registry) := by
  have hsent : Recorded (State.init 16 true, registry) [] _
      ((State.init 16 true).receive bytes, registry) := .receive _ _ _ _ bytes .start rfl
  -- a reader with nothing in its buffer has no frame yet
  have hmeets (got : Received ClientFrame) :
      ¬ Meets ((State.init 16 true).receive bytes) got (reading bytes .idle) := by
    intro h
    obtain ⟨⟨n, inbox, hpoll⟩, -⟩ := h.gets
    have hmore : ((State.init 16 true).receive bytes).inbox.poll ClientFrame.decoder n =
        some (none, ((State.init 16 true).receive bytes).inbox.take (max n 1)) :=
      (Wire.poll_eq_more_iff _ _ _ _).mpr ⟨rfl, hbytes, rfl⟩
    cases hpoll.symm.trans hmore
  exact ⟨_, .step _ _ _ _ _ _ clock hsent
    ((move_fetched clock registry bytes hbytes).step rfl)
    (fun got h => h.waits.1 rfl) hmeets⟩

/-- The running call hears the next frame that was sent. -/
theorem exists_heard (clock : Clock) {registry : Registry} {accounts : List Account} {h : History}
    {phase : Phase} {k : Received ClientFrame → Phase} {f : ClientFrame} {rest : List UInt8}
    (hrun : Recorded (State.init 16 true, registry) accounts h
      (reading (Wire.encode f.toJson ++ rest) phase, registry))
    (hbusy : phase ≠ .idle)
    (hk : (reading (Wire.encode f.toJson ++ rest) phase).reads? = some k)
    (hpoll : Wire.Inbox.poll ClientFrame.decoder 0 ⟨Wire.encode f.toJson ++ rest, [], false⟩ =
      some (some (.frame (readBack f)), ⟨rest, [], false⟩)) :
    ∃ h', Recorded (State.init 16 true, registry)
      (accounts.modifyLast (·.read (.frame (readBack f)))) h'
      (reading rest (k (.frame (readBack f))), registry) := by
  have hwhole : (reading (Wire.encode f.toJson ++ rest) phase).isBroken = false :=
    whole_of_canQueue (show CanQueue 16 by decide)
  exact ⟨_, .hear _ _ _ _ _ _ clock _ hrun ((Move.read _ _ 0 _ _ _ hk hpoll).step hwhole)
    (.read _ 0 _ hbusy hk hpoll)⟩

/-- A connection comes to have the request of a call that is sent to it. -/
theorem exists_asking (clock : Clock) (registry : Registry) {path : String} {m : Method}
    {body : Json} (hm : Method.ofPath? path = some m) (hone : readsOne m = true)
    (hne : m ≠ .expand) (hfits : CallGroup.Fits ⟨path, .empty, [body], false⟩) :
    ∃ place h, Recorded (State.init 16 true, registry)
      [⟨path, .empty, place, [asked body.reread.canonical, .frame .halfClose], none⟩] h
      (asking m body.reread.canonical, registry) := by
  let call : ClientFrame := .call path .empty
  let ending := Wire.encode ClientFrame.halfClose.toJson ++ []
  let rest := Wire.encode (ClientFrame.message body).toJson ++ ending
  have hpoll {f : ClientFrame} (hf : f ∈ [call, .message body, .halfClose])
      (rest : List UInt8) := poll_sent f rest (hfits f hf).1 (hfits f hf).2
  have hbytes : Wire.encode call.toJson ++ rest ≠ [] := by
    simp [Wire.encode_eq, Wire.lengthLine_ne_nil]
  obtain ⟨h₀, hfetched⟩ := exists_fetched clock registry _ hbytes
  have hcall := hpoll (List.mem_cons_self ..) rest
  have hmessage := hpoll (List.mem_cons_of_mem _ (List.mem_cons_self ..)) ending
  have hend := hpoll (List.mem_cons_of_mem _ (List.mem_cons_of_mem _ (List.mem_cons_self ..))) []
  have hstart : onIdle (.frame (readBack call)) = .gather ⟨m, .empty⟩ none := by
    show startCall path .empty = _
    simp only [startCall, hm]
    cases m <;> first | rfl | cases hone
  have hwork : onGather ⟨m, .empty⟩ (some body.reread.canonical) (.frame (readBack .halfClose)) =
      .work ⟨m, .empty⟩ (.request body.reread.canonical) .on := by
    simp [onGather, readBack, workOf, hne]
  obtain ⟨place, h₁, hmet⟩ : ∃ place h, Recorded (State.init 16 true, registry)
      [.opening path .empty place] h (reading rest (.gather ⟨m, .empty⟩ none), registry) := by
    rw [← hstart]
    exact ⟨_, _, .meet [] _ _ _ _ _ clock _ hfetched
      ((Move.read _ _ 0 _ _ _ rfl hcall).step rfl) (.idle 0 _ rfl rfl hcall)⟩
  obtain ⟨h₂, hheard⟩ := exists_heard clock hmet Phase.noConfusion rfl hmessage
  obtain ⟨h₃, hasked⟩ := exists_heard clock hheard Phase.noConfusion rfl hend
  rw [hwork] at hasked
  exact ⟨place, h₃, hasked⟩

/-- A step in which nobody reads, and that ends the work of a call. -/
theorem exists_quiet (clock : Clock) {start : State × Registry} {accounts : List Account}
    {h : History} {s t : State} {r r' : Registry} (hrun : Recorded start accounts h (s, r))
    (hmove : Move clock (s, r) (t, r')) (hwhole : s.isBroken = false)
    (hreads : s.reads? = none) (hidle : s.phase ≠ .idle)
    (hwork : ∀ call work watch, t.phase ≠ .work call work watch) :
    ∃ h', Recorded start (look s.queued accounts (lookedAt clock r s t)) h' (t, r') := by
  refine ⟨_, .step _ _ _ _ _ _ clock hrun (hmove.step hwhole) ?_ ?_⟩
  · exact fun got h => h.waits.2 hreads
  · intro got h
    rcases h.gets.2 with h | ⟨call, work, watch, h⟩
    · exact hidle h
    · exact hwork call work watch h

/-- The connection that has written the failure of a call. -/
def failed (status : Status) (phase : Phase) : State :=
  { State.init 16 true with
    outbox := { Outbox.empty true with log := [.trailers status .empty] }, phase }

/-- A call whose handler fails at once is answered with the failure. -/
theorem exists_failed (clock : Clock) {registry : Registry} {c : Account} {h : History}
    {m : Method} {body : Json} {status : Status}
    (hrun : Recorded (State.init 16 true, registry) [c] h (asking m body, registry))
    (hs : Service.start m .empty body clock.now registry = (.done (.fail status), registry)) :
    ∃ h', Recorded (State.init 16 true, registry) [{ c with looked := some ⟨clock.now, registry⟩ }]
      h' (failed status .idle, registry) := by
  obtain ⟨h₁, hanswered⟩ := exists_quiet clock hrun (.answer _ _ _ body .on _ registry rfl hs) rfl
    rfl Phase.noConfusion fun _ _ _ => Phase.noConfusion
  obtain ⟨h₂, hbegun⟩ := exists_quiet clock hanswered
    (.beginLast _ _ (.trailers status .empty) [] rfl rfl) rfl rfl Phase.noConfusion
    fun _ _ _ => Phase.noConfusion
  obtain ⟨h₃, hwritten⟩ := exists_quiet clock hbegun
    (.write _ _ (.trailers status .empty) _ _ trivial rfl rfl) rfl rfl Phase.noConfusion
    fun _ _ _ => Phase.noConfusion
  obtain ⟨h₄, hended⟩ := exists_quiet clock hwritten (.endLast _ _ rfl rfl) rfl
    rfl Phase.noConfusion fun _ _ _ => Phase.noConfusion
  exact ⟨h₄, hended⟩

/-- A call of `Block` whose delay runs off is answered with the failure that it carries. -/
theorem uncancelled_delayed {registry : Registry} {body : Json} {request : BlockRequest}
    {status : Status} (hr : decodeRequest BlockRequest.decoder body = .ok request)
    (hdelay : request.responseDelay.toDelay ≠ 0) (herror : request.error = some status)
    (hstatus : status.code ≠ .ok) :
    Uncancelled (asking .block body, registry) (failed status (.close []), registry) := by
  have hfail : finish ((Service.blockOutcome .empty request).map some) =
      .close [.trailers status .empty] := by
    rw [Service.blockOutcome_failure herror hstatus]
    rfl
  have hstart : Service.start .block .empty body epoch registry =
      (.delayed request.responseDelay.toDelay request, registry) := by
    simp only [Service.start, hr, if_neg hdelay]
  have hmove {t : State × Registry} (clock : Clock) {frames : List ServerFrame}
      (hclose : t.1.phase = .close frames) {s : State × Registry}
      (hrun : Uncancelled (asking .block body, registry) s) (h : Move clock s t)
      (hwhole : s.1.isBroken = false) : Uncancelled (asking .block body, registry) t := by
    refine .step s.1 s.2 t.1 t.2 clock hrun (h.step hwhole) ?_
    intro _ call work hphase
    cases hclose.symm.trans hphase
  have hdelayed : Uncancelled (asking .block body, registry) (reading [] (.work ⟨.block, .empty⟩
      (.delay (0 + request.responseDelay.toDelay) request) .on), registry) := by
    refine .step _ _ _ _ ⟨0, epoch⟩ .start ((Move.delay _ _ _ body
      .on _ request registry rfl hstart).step rfl) fun _ call work hphase => ?_
    cases hphase
  have hexpired : Uncancelled (asking .block body, registry)
      (reading [] (.close [.trailers status .empty]), registry) := by
    have hexpire : Move ⟨0 + request.responseDelay.toDelay, epoch⟩ _ _ :=
      .expire (reading [] (.work ⟨.block, .empty⟩ _ .on)) registry _ _ request .on rfl
        (Nat.le_refl _)
    rw [hfail] at hexpire
    exact hmove _ rfl hdelayed hexpire rfl
  refine hmove ⟨0, epoch⟩ rfl (hmove ⟨0, epoch⟩ rfl hexpired
    (.beginLast _ _ (.trailers status .empty) [] rfl rfl) rfl) ?_ rfl
  exact .write _ _ (.trailers status .empty) _ _ trivial rfl rfl

/-- A refusal with a detail, and a request for it, after a second if its method waits. -/
def denial : Status := ⟨.permissionDenied, "no", [⟨"reason", .array [.string "closed"]⟩]⟩

def denied : Json :=
  .object [("error", denial.toJson), ("response_delay", (Duration.mk 1 0).toJson)]

/-- A failure that a request carries comes back as it is, and a status with the code OK leaves no
trace. -/
theorem injected_errors_verbatim {capacity : Nat} {reads : Bool} {registry : Registry}
    {accounts : List Account} {h : History} {a : State × Registry}
    (hrun : Recorded (State.init capacity reads, registry) accounts h a) :
    (∃ closed waiting, ∃ blocks : List Block, ∃ bodies : List Json,
      accounts = closed ++ waiting ∧ List.Forall₂ Account.Verbatim closed blocks ∧
      a.1.outbox.written = blocks.flatMap Block.frames ++ bodies.map .message ∧
      (reads = true → a.1.outbox.gone = false → Settled a.1 → ∀ c ∈ waiting,
        (∀ s messages, s.code ≠ .ok → ¬ c.Carries s messages) ∧
        ∀ m body, Method.ofPath? c.path = some m → readsOne m = true →
          c.reads ≠ [asked body, .frame .halfClose])) ∧
    (WellFounded fun t s => Next s t) ∧
    (∀ call body watch request status b, a.1.phase = .work call (.request body) watch →
      watch ≠ .cancelled → call.method = .block →
      decodeRequest BlockRequest.decoder body = .ok request → request.error = some status →
      status.code ≠ .ok → Uncancelled a b →
        (b.1.outbox.written = a.1.outbox.written ∨
          ∃ rest, b.1.outbox.written = a.1.outbox.written ++ .trailers status .empty :: rest) ∧
        (reads = true → b.1.outbox.gone = false → Settled b.1 →
          ∃ rest, b.1.outbox.written = a.1.outbox.written ++ .trailers status .empty :: rest)) ∧
    (∀ o : Operation, (∀ s, o.result = some (.error s) → ∀ d ∈ s.details, IntegersOnly d.value) →
      (ServerFrame.message (Service.responseBody o.toJson)).Verbatim) ∧
    (∀ front since request started,
      (∀ before e rest, since = before ++ e :: rest →
        (Registry.after (front ++ .wait request started :: before)).Spares
          (Registry.nameOf (Registry.after front).nextId) (request.doneAt started) e) →
      (Registry.after (front ++ .wait request started :: since)).find?
          (Registry.nameOf (Registry.after front).nextId) =
        some ⟨request.doneAt started, request⟩) ∧
    ∀ events e, Registry.reply (events.map Registry.Event.plain) e.plain =
      Registry.reply events e := by
  have hverbatim {closed waiting : List Account} {blocks : List Block}
      (haccounts : accounts = closed ++ waiting)
      (hyields : List.Forall₂ Account.Yields closed blocks) :
      List.Forall₂ Account.Verbatim closed blocks := by
    have hmem : ∀ c ∈ closed, c ∈ accounts := fun c hc => haccounts ▸ List.mem_append_left _ hc
    refine ((List.forall₂_and_left _ _).mpr ⟨hmem, hyields⟩).imp fun c b ⟨hc, hb⟩ => ?_
    exact hb.verbatim (bodies_read hrun c hc) (looked_of_expand hrun c hc)
  refine ⟨?_, next_wellFounded, ?_, ?_, fun _ _ _ _ => Registry.find?_after,
    Registry.reply_plain⟩
  -- at rest the accounts that are left are not due; before, nothing is said of them
  · by_cases hrest : reads = true ∧ a.1.outbox.gone = false ∧ Settled a.1
    · obtain ⟨rfl, hgone, hsettled⟩ := hrest
      obtain ⟨closed, waiting, blocks, bodies, haccounts, hyields, hwritten, hdue⟩ :=
        answered_of_settled hrun hgone hsettled
      refine ⟨closed, waiting, blocks, bodies, haccounts, hverbatim haccounts hyields, hwritten,
        fun _ _ _ c hc => ⟨fun s messages hs hcarries => hdue c hc (hcarries.due hs), ?_⟩⟩
      intro m body hm hone hreads
      exact hdue c hc ((Account.due_iff_of_single hm hone).mpr ⟨body, hreads⟩)
    · obtain ⟨closed, waiting, blocks, bodies, haccounts, hyields, hwritten, -⟩ :=
        told_of_accounted (accounted_run hrun)
      exact ⟨closed, waiting, blocks, bodies, haccounts, hverbatim haccounts hyields, hwritten,
        fun hreads hgone hsettled => absurd ⟨hreads, hgone, hsettled⟩ hrest⟩
  · intro call body watch request status b hp hwatch hmethod hr herror hstatus hmore
    exact uncancelled_block hrun.run hp hwatch hmethod hr herror hstatus hmore
  · intro o hints
    refine verbatim_responseBody (o.reread_toJson fun s hs => ?_)
    exact s.reread_of_integersOnly (hints s hs)

/-- A call of `Echo`, and one of `Block` with a delay, that are to be refused. -/
theorem injected_errors_verbatim_denial :
    (∃ c h a b, Recorded (State.init 16 true, .empty) [c] h a ∧ c.Carries denial [] ∧
      c.Verbatim b ∧ b = ⟨[], denial, .empty⟩ ∧ a.1.outbox.written = b.frames) ∧
    ∃ h b rest, Run (State.init 16 true, .empty) h (asking .block denied.reread.canonical, .empty) ∧
      Uncancelled (asking .block denied.reread.canonical, .empty) b ∧
      b.1.outbox.written = .trailers denial .empty :: rest := by
  have hdenial : denial.code ≠ .ok := by decide
  have hecho : Method.ofPath? "Echo" = some .echo := by decide +kernel
  have hblock : Method.ofPath? "Block" = some .block := by decide +kernel
  have hfits : CallGroup.Fits ⟨"Echo", .empty, [denied], false⟩ ∧
      CallGroup.Fits ⟨"Block", .empty, [denied], false⟩ := by
    unfold CallGroup.Fits
    decide +kernel
  constructor
  · obtain ⟨place, h, hasked⟩ := exists_asking ⟨0, epoch⟩ .empty hecho rfl (by decide) hfits.1
    obtain ⟨h', hfailed⟩ := exists_failed ⟨0, epoch⟩ hasked
      (show Service.start .echo .empty denied.reread.canonical epoch .empty =
        (.done (.fail denial), .empty) from rfl)
    obtain ⟨⟨closed, waiting, blocks, bodies, haccounts, hall, hwritten, -⟩, -⟩ :=
      injected_errors_verbatim hfailed
    have hcarries : Account.Carries ⟨"Echo", .empty, place,
        [asked denied.reread.canonical, .frame .halfClose], some ⟨epoch, .empty⟩⟩ denial [] :=
      .echo denied.reread.canonical ⟨"", .unnecessary, some denial⟩ hecho rfl rfl rfl
    cases hall with
    -- trailers are written, so a block is
    | nil => cases bodies <;> cases hwritten
    | @cons c b closed blocks hc hall =>
      obtain ⟨rfl, -⟩ := List.cons.inj haccounts
      have hb : b = ⟨[], denial, .empty⟩ := by
        refine (hc.failed denial [] hcarries hdenial).resolve_right fun h => ?_
        cases hecho.symm.trans h.1
      exact ⟨_, h', _, b, hfailed, hcarries, hc, hb, by rw [hb]; rfl⟩
  · obtain ⟨place, h, hasked⟩ := exists_asking ⟨0, epoch⟩ .empty hblock rfl (by decide) hfits.2
    have hmore : Uncancelled (asking .block denied.reread.canonical, .empty) _ :=
      uncancelled_delayed rfl (by decide) rfl hdenial
    obtain ⟨-, -, hheld, -⟩ := injected_errors_verbatim hasked
    obtain ⟨hwritten, -⟩ := hheld _ _ .on _ _ _ rfl (by decide) rfl rfl rfl hdenial hmore
    obtain ⟨rest, hrest⟩ := hwritten.resolve_left fun h => by cases h
    exact ⟨h, _, rest, hasked.run, hmore, hrest⟩

end Connection
end EchoServer
