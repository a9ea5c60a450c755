import EchoServer.Proofs.Connection.Blocks
import EchoServer.Proofs.Service.Depth
import EchoServer.Proofs.Wire.Bodies
import EchoServer.Proofs.Wire.Readable

namespace EchoServer

open Json (Decoder)

/-- A frame with a moderate failure, or with a body that is nested no deeper than that of an
operation. -/
def ServerFrame.Bounded : ServerFrame → Prop
  | .message body => BoundedBody body
  | .trailers status _ => status.Stored 125

/-- A frame is nested one container deeper than a reader allows at most, and only if it is an
operation with an error that is nested as deep as can be. -/
theorem ServerFrame.Bounded.depth {f : ServerFrame} (h : f.Bounded) : f.toJson.depth ≤ 128 ∧
    (f.toJson.depth = 128 → ∃ (o : Operation) (s : Status),
      f = .message (Service.responseBody o.toJson) ∧ o.result = some (.error s) ∧
        s.toJson.depth = 125) := by
  cases f with
  | message body =>
    have hdepth : (ServerFrame.message body).toJson.depth = body.depth + 1 := by
      simp [toJson, Json.depth, Json.depthMembers]
    rw [hdepth]
    rcases BoundedBody.depth h with hle | ⟨heq, o, s, rfl, hs, hdeep⟩
    · exact ⟨by omega, fun h => by omega⟩
    · exact ⟨by omega, fun _ => ⟨o, s, rfl, hs, hdeep⟩⟩
  | trailers status md =>
    have hstatus : status.toJson.depth ≤ 125 := Status.Stored.depth h
    have hle : (ServerFrame.trailers status md).toJson.depth ≤ 127 := by
      have hmd := md.depth_toJson_le
      by_cases he : md.isEmpty <;>
        simp only [toJson, he, if_true, Bool.false_eq_true, if_false, Json.depth,
          Json.depthMembers, List.cons_append, List.nil_append, List.append_nil] <;> omega
    exact ⟨Nat.le_trans hle (by decide), fun h => by omega⟩

/-- A frame whose opaque values are stored is not changed by storing it. -/
theorem ServerFrame.Bounded.canonical {f : ServerFrame} (h : f.Bounded) : f.canonical = f := by
  cases f with
  | message body => exact congrArg ServerFrame.message (BoundedBody.stored h)
  | trailers status md =>
    exact congrArg (ServerFrame.trailers · md) (Status.Stored.canonical h)

namespace Connection

open Wire (Inbox Received)

theorem bounded_lastFrames {o : Outcome (Option Json)} (hfail : Moderate o.result)
    (hbody : ∀ v, o.result = .ok (some v) → BoundedBody v) : ∀ f ∈ lastFrames o, f.Bounded := by
  obtain ⟨result, trailers⟩ := o
  have hok (md : Metadata) : (ServerFrame.trailers .ok md).Bounded := Status.stored_of _ _
  intro f hf
  cases result with
  | error s =>
    obtain rfl := List.mem_singleton.mp hf
    exact hfail s rfl
  | ok body =>
    cases body with
    | none =>
      obtain rfl := List.mem_singleton.mp hf
      exact hok trailers
    | some v =>
      rcases List.mem_cons.mp hf with rfl | hf
      · exact hbody v rfl
      · obtain rfl := List.mem_singleton.mp hf
        exact hok trailers

/-- What the handler has in hand is nested moderately. -/
def Handler.Bounded : Handler → Prop
  | .start body => body.depth ≤ 126
  | .send _ verdict => Moderate verdict
  | .done result => Moderate result
  | _ => True

/-- What a phase has in hand is nested moderately. -/
def Phase.Bounded : Phase → Prop
  | .gather _ body => ∀ b, body = some b → b.depth ≤ 126
  | .work _ (.request body) _ => body.depth ≤ 126
  | .work _ (.delay _ r) _ => ∀ s, r.error = some s → s.Stored 125
  | .work _ (.stream x) _ => x.handler.Bounded
  | .close frames => ∀ f ∈ frames, f.Bounded
  | _ => True

/-- What a handler does after sending is what it was going to do. -/
theorem Handler.Bounded.sends {handler next : Handler} {x : EchoResponse} (h : handler.Bounded)
    (hx : handler.sends? = some (x, next)) : next.Bounded := by
  unfold Handler.sends? at hx
  split at hx
  · obtain ⟨-, rfl⟩ := Prod.mk.inj (Option.some.inj hx)
    exact h
  · obtain ⟨-, rfl⟩ := Prod.mk.inj (Option.some.inj hx)
    trivial
  · cases hx

theorem bounded_finish {o : Outcome Json} (h : Service.Bounded o) :
    (finish (o.map some)).Bounded := by
  refine bounded_lastFrames (moderate_map _ h.failure) fun v hv => ?_
  obtain ⟨w, hw, hv⟩ := exists_of_map_ok hv
  exact h.body v (Option.some.inj hv ▸ hw)

theorem bounded_reject {s : Status} (h : s.Stored 125) : (reject s).Bounded := by
  refine bounded_lastFrames (moderate_error h) fun v hv => ?_
  cases hv

theorem bounded_startCall (path : String) (metadata : Metadata) :
    (startCall path metadata).Bounded := by
  unfold startCall
  split
  · exact bounded_reject (Status.stored_of _ _)
  · trivial
  · trivial
  · intro b hb
    cases hb

theorem bounded_streamEnd {call : Call} {result : Except Status Unit} (h : Moderate result) :
    (streamEnd call result).Bounded := by
  unfold streamEnd
  rw [Outcome.of_map]
  refine bounded_lastFrames ?_ fun v hv => ?_
  · rw [Outcome.of_result]
    exact moderate_map _ h
  · rw [Outcome.of_result] at hv
    obtain ⟨x, -, hx⟩ := exists_of_map_ok hv
    cases hx

/-- What is received brings bodies that are nested no deeper than a frame allows. -/
def Brings (got : Received ClientFrame) : Prop :=
  ∀ body, got = .frame (.message body) → body.depth ≤ 126

theorem brings_of_poll {i j : Inbox} {n : Nat} {got : Received ClientFrame}
    (h : i.poll ClientFrame.decoder n = some (some got, j)) : Brings got := by
  rintro body rfl
  exact (body_of_poll h).2

/-- The next request of a stream fails moderately, and asks for no more than that. -/
theorem moderate_requestOf {got : Received ClientFrame} {item : Except Status EchoRequest}
    (hgot : Brings got) (h : requestOf got = some item) :
    Moderate item ∧ ∀ r, item = .ok r → ∀ s, r.error = some s → s.Stored 125 := by
  cases got with
  | frame f =>
    cases f with
    | message body =>
      obtain rfl := Option.some.inj h
      refine ⟨Service.moderate_decodeRequest _ _, fun r hr s hs => ?_⟩
      exact Service.given_by_decodeRequest EchoRequest.decoder_gives (hgot body rfl) hr s hs
    | halfClose => cases h
    | cancel =>
      obtain rfl := Option.some.inj h
      exact ⟨moderate_of _ _, fun r hr => by cases hr⟩
    | call path metadata =>
      obtain rfl := Option.some.inj h
      exact ⟨moderate_of _ _, fun r hr => by cases hr⟩
  | ended =>
    obtain rfl := Option.some.inj h
    exact ⟨moderate_of _ _, fun r hr => by cases hr⟩
  | failed e =>
    obtain rfl := Option.some.inj h
    exact ⟨moderate_of _ _, fun r hr => by cases hr⟩

theorem bounded_onGather {call : Call} {body : Option Json} {got : Received ClientFrame}
    (hgot : Brings got) (h : (Phase.gather call body).Bounded) :
    (onGather call body got).Bounded := by
  cases got with
  | frame f =>
    cases f with
    | message b =>
      cases body with
      | none => exact fun b' hb => Option.some.inj hb ▸ hgot b rfl
      | some b' => exact bounded_reject (Status.stored_of _ _)
    | halfClose =>
      cases body with
      | none => exact bounded_reject (Status.stored_of _ _)
      | some b =>
        have hb : b.depth ≤ 126 := h b rfl
        show (workOf call b).Bounded
        unfold workOf
        split <;> exact hb
    | cancel => exact bounded_reject (Status.stored_of _ _)
    | call path metadata => exact bounded_reject (Status.stored_of _ _)
  | ended => trivial
  | failed e => trivial

theorem bounded_onCollect {call : Call} {contents : List String} {got : Received ClientFrame}
    (hgot : Brings got) : (onCollect call contents got).Bounded := by
  unfold onCollect
  split
  · have hbody : BoundedBody (Service.responseBody (Service.collectResponse contents).toJson) :=
      boundedBody_of_le (by rw [EchoResponse.depth_toJson]; decide)
    refine bounded_lastFrames (by rw [Outcome.of_result]; exact moderate_ok _) fun v hv => ?_
    rw [Outcome.of_result] at hv
    exact Option.some.inj (Except.ok.inj hv) ▸ hbody
  · rename_i item hitem
    obtain ⟨hfail, hask⟩ := moderate_requestOf hgot hitem
    have hstep : Moderate (item.bind (Service.collectStep contents)) :=
      moderate_bind hfail fun r hr =>
        moderate_bind (moderate_resolve (hask r hr)) fun _ _ => moderate_ok _
    split
    · trivial
    · rename_i s hs
      exact bounded_reject (hstep s hs)

theorem bounded_onListen {got : Received ClientFrame} (hgot : Brings got) :
    (onListen got).Bounded := by
  unfold onListen
  split
  · exact moderate_ok _
  · rename_i item hitem
    obtain ⟨hfail, hask⟩ := moderate_requestOf hgot hitem
    have hstep : Moderate (item.bind Service.chatStep) :=
      moderate_bind hfail fun r hr =>
        moderate_bind (moderate_resolve (hask r hr)) fun _ _ => moderate_ok _
    split
    · trivial
    · rename_i s hs
      exact moderate_error (hstep s hs)

/-- Whoever waits for a frame makes something moderate of it. -/
theorem bounded_read {s : State} {k : Received ClientFrame → Phase} {got : Received ClientFrame}
    (hk : s.reads? = some k) (hgot : Brings got) (h : s.phase.Bounded) : (k got).Bounded := by
  unfold State.reads? at hk
  split at hk
  · split at hk
    · obtain rfl := Option.some.inj hk
      rcases got with f | _ | e
      · cases f with
        | call path metadata => exact bounded_startCall path metadata
        | _ => trivial
      · trivial
      · trivial
    · cases hk
  · rename_i call body hp
    obtain rfl := Option.some.inj hk
    exact bounded_onGather hgot (hp ▸ h)
  · obtain rfl := Option.some.inj hk
    exact bounded_onCollect hgot
  · split at hk
    · obtain rfl := Option.some.inj hk
      exact bounded_onListen hgot
    · cases hk
  · cases hk

/-- All that a connection has in hand and has begun to write is nested moderately. -/
structure State.Bounded (s : State) : Prop where
  phase : s.phase.Bounded
  sent : ∀ f ∈ s.sent, f.Bounded

section
variable {clock : Clock} {s t : State} {r r' : Registry}

theorem State.Bounded.handler (h : s.Bounded) {call : Call} {x : Stream} {watch : Watch}
    (hp : s.phase = .work call (.stream x) watch) : x.handler.Bounded := by
  have hphase := h.phase
  rw [hp] at hphase
  exact hphase

theorem State.Bounded.request (h : s.Bounded) {call : Call} {body : Json} {watch : Watch}
    (hp : s.phase = .work call (.request body) watch) : body.depth ≤ 126 := by
  have hphase := h.phase
  rw [hp] at hphase
  exact hphase

/-- Every move keeps this, if a handler that looks at the registry finds moderate errors in it. -/
theorem bounded_step (hmove : Move clock (s, r) (t, r'))
    (hlooked : ∀ g ∈ lookedAt clock r s t, g.registry.Shallow) (h : s.Bounded) : t.Bounded := by
  have hsent := h.sent
  cases hmove with
  | fetch s r n hreads hp ha hn => exact ⟨h.phase, hsent⟩
  | read s r n k got inbox hk hpoll =>
    exact ⟨bounded_read hk (brings_of_poll hpoll) h.phase, hsent⟩
  | takeUp s r path metadata hp hq => exact ⟨bounded_startCall path metadata, hsent⟩
  | watch s r n call work got inbox hp hpoll =>
    have hphase := h.phase
    rw [hp] at hphase
    exact ⟨by cases work <;> exact hphase, hsent⟩
  -- an answer may hold an error out of the registry, so that has to be moderate too
  | answer s r call body watch o r' hp hs =>
    have hr : r.Shallow := hlooked ⟨clock.now, r⟩ (by simp [lookedAt, hp, finish])
    obtain ⟨hanswer, -⟩ := Service.answerBounded_start call.method body clock.now r
      (h.request hp) hr
    rw [hs] at hanswer
    exact ⟨bounded_finish (hanswer.done o rfl), hsent⟩
  | delay s r call body watch n request r' hp hs =>
    have hr : r.Shallow := hlooked ⟨clock.now, r⟩ (by simp [lookedAt, hp])
    obtain ⟨hanswer, -⟩ := Service.answerBounded_start call.method body clock.now r
      (h.request hp) hr
    rw [hs] at hanswer
    exact ⟨hanswer.delayed n request rfl, hsent⟩
  | cancel s r call deadline request hp => exact ⟨bounded_reject (Status.stored_of _ _), hsent⟩
  | expire s r call deadline request watch hp hd =>
    have hphase := h.phase
    rw [hp] at hphase
    exact ⟨bounded_finish (Service.bounded_blockOutcome hphase), hsent⟩
  | expand s r call x body watch hp hx =>
    have hbody := h.handler hp
    rw [hx] at hbody
    refine ⟨?_, hsent⟩
    show (startExpand body).Bounded
    unfold startExpand
    split
    · rename_i status hs
      exact moderate_error (Service.moderate_decodeRequest _ body status hs)
    · rename_i request hrequest
      exact moderate_resolve fun status hs =>
        Service.given_by_decodeRequest EchoRequest.decoder_gives hbody hrequest status hs
  | sent s r call x verdict watch hp hx =>
    have hverdict := h.handler hp
    rw [hx] at hverdict
    exact ⟨hverdict, hsent⟩
  | send s r call x y next watch hp hx hf hroom => exact ⟨(h.handler hp).sends hx, hsent⟩
  | refuse s r call x y next watch hp hx hf => exact ⟨moderate_of _ _, hsent⟩
  | forward s r call x y rest watch hp hcur hf hq =>
    have hhandler := h.handler hp
    refine ⟨hhandler, fun f hmem => ?_⟩
    have hcases : f ∈ s.sent ∨ f = .message (Service.responseBody y.toJson) := by
      simpa [State.sent, Outbox.begin, Outbox.written, hcur] using hmem
    rcases hcases with hmem | rfl
    · exact hsent f hmem
    · exact boundedBody_of_le (by rw [y.depth_toJson]; decide)
  | endStream s r call x result watch hp hx hcur hf hq =>
    have hresult := h.handler hp
    rw [hx] at hresult
    exact ⟨bounded_streamEnd hresult, hsent⟩
  | giveUp s r call x result watch hp hx hcur hf => exact ⟨trivial, hsent⟩
  | writePart s r f n outbox hw hcur hpush =>
    obtain ⟨m, -, rfl, -⟩ := push_part _ _ f n hpush
    refine ⟨h.phase, fun g hg => hsent g ?_⟩
    simpa [State.sent, Outbox.written, hcur] using hg
  -- the frame that was under way counted as sent before
  | write s r f n outbox hw hcur hpush =>
    obtain ⟨hlog, hnone, -, -⟩ := push_complete _ _ f n hpush
    refine ⟨h.phase, fun g hg => hsent g ?_⟩
    simpa [State.sent, Outbox.written, hcur, hlog, hnone] using hg
  | failStream s r call x watch f n hp hcur hpush =>
    have hhandler := h.handler hp
    refine ⟨hhandler, fun g hg => hsent g ?_⟩
    have hwritten : g ∈ s.outbox.written := by simpa [State.sent, Outbox.written] using hg
    exact List.mem_append_left _ hwritten
  | failLast s r frames f n hp hcur hpush => exact ⟨trivial, hsent⟩
  | beginLast s r f rest hp hcur =>
    have hframes := h.phase
    rw [hp] at hframes
    refine ⟨fun g hg => hframes g (List.mem_cons_of_mem _ hg), fun g hg => ?_⟩
    have hcases : g ∈ s.sent ∨ g = f := by
      simpa [State.sent, Outbox.begin, Outbox.written, hcur] using hg
    rcases hcases with hg | rfl
    · exact hsent g hg
    · exact hframes g (List.mem_cons_self ..)
  | endLast s r hp hcur => exact ⟨trivial, hsent⟩

/-- A connection brings nothing else into the registry. -/
theorem shallow_step (hmove : Move clock (s, r) (t, r')) (h : s.Bounded) (hr : r.Shallow) :
    r'.Shallow := by
  cases hmove with
  | answer s r call body watch o r' hp hs =>
    have hshallow : (Service.start call.method call.metadata body clock.now r).2.Shallow :=
      (Service.answerBounded_start call.method body clock.now r (h.request hp) hr).2
    rwa [hs] at hshallow
  | delay s r call body watch n request r' hp hs =>
    have hshallow : (Service.start call.method call.metadata body clock.now r).2.Shallow :=
      (Service.answerBounded_start call.method body clock.now r (h.request hp) hr).2
    rwa [hs] at hshallow
  | _ => exact hr

end

theorem bounded_run {capacity : Nat} {reads : Bool} {registry : Registry} {h : History}
    {a : State × Registry} (hrun : Run (State.init capacity reads, registry) h a)
    (hlooked : ∀ g ∈ h.readings, g.registry.Shallow) : a.1.Bounded := by
  induction hrun with
  | start => exact ⟨trivial, fun f hf => by cases hf⟩
  | step h s r t r' clock _ hstep ih =>
    have hmove := hstep.move
    exact bounded_step hmove (fun g hg => hlooked g (List.mem_append_right _ hg))
      (ih fun g hg => hlooked g (List.mem_append_left _ hg))
  | receive h s r bytes _ hopen ih => exact ⟨(ih hlooked).phase, (ih hlooked).sent⟩
  | close h s r _ ih => exact ⟨(ih hlooked).phase, (ih hlooked).sent⟩
  | drop h s r _ ih => exact ⟨(ih hlooked).phase, (ih hlooked).sent⟩
  | share h s r r' _ ih => exact ih hlooked

end Connection
end EchoServer
