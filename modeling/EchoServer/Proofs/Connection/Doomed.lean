import EchoServer.Proofs.Connection.Interleaving
import EchoServer.Proofs.Connection.Pace
import EchoServer.Proofs.Connection.Tracked
import EchoServer.Proofs.Wire.Failure

/-! Nobody gets anything from a stream that has failed. `Phase.Leads` says what a phase comes to
without it, and every step keeps to it. -/
namespace EchoServer.Connection

open Wire (FrameError Inbox Received)

/-- The frames that a phase leads to without reading, when the handlers look at these things. A
handler that is cancelled in its delay may find the delay over first, if `late`. -/
inductive Phase.Leads (late : Prop) : Phase → List Reading → List ServerFrame → Prop
  | idle : Leads late .idle [] []
  | finished (failure) : Leads late (.finished failure) [] []
  | close (frames) : Leads late (.close frames) [] frames
  | stream (call x watch responses result) (hx : x.handler.flush = (responses, some result)) :
      Leads late (.work call (.stream x) watch) [] (messages (x.queue ++ responses) ++
        lastFrames ((Outcome.of call.metadata result).map fun _ => none))
  | cancelled (call deadline request watch) :
      Leads late (.work call (.delay deadline request) watch) []
        [.trailers Service.cancelledInDelay .empty]
  | expired (call deadline request watch) (hlate : late) :
      Leads late (.work call (.delay deadline request) watch) []
        (lastFrames ((Service.blockOutcome call.metadata request).map some))
  | answered (call body watch g o)
      (hs : (Service.start call.method call.metadata body g.now g.registry).1 = .done o) :
      Leads late (.work call (.request body) watch) [g] (lastFrames (o.map some))
  | delayed (call body watch g n request deadline frames)
      (hs : (Service.start call.method call.metadata body g.now g.registry).1 =
        .delayed n request)
      (h : Leads late (.work call (.delay deadline request) watch) [] frames) :
      Leads late (.work call (.request body) watch) [g] frames

/-- Nobody but the main loop waits for a frame, and a handler that can be cancelled is. -/
def Phase.Deaf : Phase → Prop
  | .gather _ _ => False
  | .collect _ _ => False
  | .work _ (.stream x) watch => watch ≠ .on ∧ ¬ x.handler.Listens
  | .work _ _ watch => watch = .cancelled
  | _ => True

/-- The stream has failed, and somebody knows. -/
structure Doomed (e : FrameError) (s : State) : Prop where
  failing : s.inbox.Failing ClientFrame.decoder e
  queued : s.queued = none
  deaf : s.phase.Deaf

section
variable {late : Prop} {e : FrameError} {clock : Clock} {s t : State} {r r' : Registry}

theorem Doomed.got (h : Doomed e s) {n : Nat} {got : Received ClientFrame} {inbox : Inbox}
    (hpoll : s.inbox.poll ClientFrame.decoder n = some (some got, inbox)) :
    got = .failed e ∧ inbox = s.inbox := by
  rw [h.failing.poll n] at hpoll
  obtain ⟨hgot, rfl⟩ := Prod.mk.inj (Option.some.inj hpoll)
  exact ⟨(Option.some.inj hgot).symm, rfl⟩

/-- Only the main loop still reads, when it is idle. -/
theorem Doomed.idle_of_reads (h : Doomed e s) {k : Received ClientFrame → Phase}
    (hk : s.reads? = some k) : s.phase = .idle ∧ k = onIdle := by
  have hdeaf := h.deaf
  unfold State.reads? at hk
  split at hk
  · rename_i hp
    simp only [h.queued, Option.isNone_none, if_true, Option.some.injEq] at hk
    exact ⟨hp, hk.symm⟩
  · rename_i hp
    simp [hp, Phase.Deaf] at hdeaf
  · rename_i hp
    simp [hp, Phase.Deaf] at hdeaf
  · rename_i hp
    split at hk
    · rename_i hx
      simp [hp, Phase.Deaf, hx, Handler.Listens] at hdeaf
    · cases hk
  · cases hk

theorem Doomed.not_watched (h : Doomed e s) {call : Call} {work : Work}
    (hp : s.phase = .work call work .on) : False := by
  have hdeaf := h.deaf
  rw [hp] at hdeaf
  cases work with
  | stream x => exact hdeaf.1 rfl
  | request body => cases hdeaf
  | delay deadline request => cases hdeaf

theorem Doomed.nextCall?_eq_none (h : Doomed e s) : s.nextCall? = none := by
  unfold State.nextCall?
  split
  · rw [h.queued]
    rcases h.failing with hp | ⟨hp, -⟩ <;> simp [Inbox.fromBuffer, hp]
  · rfl

theorem Doomed.not_fetched (h : Doomed e s)
    (hp : Wire.parse ClientFrame.decoder s.inbox.buffer = .ok .incomplete)
    (ha : s.inbox.arrived ≠ []) : False := by
  rcases h.failing with hfailed | ⟨-, harrived, -⟩
  · rw [hp] at hfailed
    cases hfailed
  · exact ha harrived

theorem Doomed.not_dry (h : Doomed e s) (hdry : Dry s.inbox) : False := by
  obtain ⟨hp, -, hopen⟩ := hdry
  rcases h.failing with hfailed | ⟨-, -, hclosed, -⟩
  · rw [hp] at hfailed
    cases hfailed
  · rw [hopen] at hclosed
    cases hclosed

/-- A doomed connection stays doomed, and takes nothing from its inbox. -/
theorem doomed_step (hmove : Move clock (s, r) (t, r')) (h : Doomed e s) :
    Doomed e t ∧ t.inbox = s.inbox := by
  have hdeaf := h.deaf
  cases hmove with
  | fetch s r n hr hparse ha hn => exact (h.not_fetched hparse ha).elim
  | read s r n k got inbox hk hpoll =>
    obtain ⟨rfl, rfl⟩ := h.got hpoll
    obtain ⟨-, rfl⟩ := h.idle_of_reads hk
    exact ⟨⟨h.failing, h.queued, trivial⟩, rfl⟩
  | takeUp s r path metadata hp hq =>
    rw [h.queued] at hq
    cases hq
  | watch s r n call work got inbox hp hpoll => exact (h.not_watched hp).elim
  | delay s r call body watch n request r' hp hs =>
    rw [hp] at hdeaf
    exact ⟨⟨h.failing, h.queued, hdeaf⟩, rfl⟩
  | expand s r call x body watch hp hx =>
    rw [hp] at hdeaf
    exact ⟨⟨h.failing, h.queued, hdeaf.1, startExpand_not_listens body⟩, rfl⟩
  | sent s r call x verdict watch hp hx =>
    rw [hp] at hdeaf
    exact ⟨⟨h.failing, h.queued, hdeaf.1, id⟩, rfl⟩
  | send s r call x y next watch hp hx hf hroom =>
    rw [hp] at hdeaf
    exact ⟨⟨h.failing, h.queued, hdeaf.1, fun hl => hdeaf.2 (.of_sends hx hl)⟩, rfl⟩
  | refuse s r call x y next watch hp hx hf =>
    rw [hp] at hdeaf
    exact ⟨⟨h.failing, h.queued, hdeaf.1, id⟩, rfl⟩
  | forward s r call x y rest watch hp hc hf hq =>
    rw [hp] at hdeaf
    exact ⟨⟨h.failing, h.queued, hdeaf⟩, rfl⟩
  | failStream s r call x watch f n hp hc hpush =>
    rw [hp] at hdeaf
    exact ⟨⟨h.failing, h.queued, hdeaf⟩, rfl⟩
  | writePart s r f n outbox hw hc hpush => exact ⟨⟨h.failing, h.queued, hdeaf⟩, rfl⟩
  | write s r f n outbox hw hc hpush => exact ⟨⟨h.failing, h.queued, hdeaf⟩, rfl⟩
  | _ => exact ⟨⟨h.failing, h.queued, trivial⟩, rfl⟩

/-- A doomed connection takes up no call, whatever else comes. -/
theorem doomed_run {start : State × Registry} {h : History} {a : State × Registry}
    (hrun : Run start h a) (hstart : Doomed e start.1) :
    Doomed e a.1 ∧ h.calls = [] ∧ a.1.inbox.buffer = start.1.inbox.buffer := by
  induction hrun with
  | start => exact ⟨hstart, rfl, rfl⟩
  | step h s r t r' clock _ hstep ih =>
    obtain ⟨hdoomed, hcalls, hbuffer⟩ := ih
    obtain ⟨hnext, hinbox⟩ := doomed_step hstep.move hdoomed
    refine ⟨hnext, ?_, hinbox ▸ hbuffer⟩
    simp [History.step, hcalls, hdoomed.nextCall?_eq_none]
  | receive h s r bytes _ hopen ih =>
    obtain ⟨hdoomed, hcalls, hbuffer⟩ := ih
    exact ⟨⟨hdoomed.failing.receive hopen bytes, hdoomed.queued, hdoomed.deaf⟩, hcalls, hbuffer⟩
  | close h s r _ ih =>
    obtain ⟨hdoomed, hcalls, hbuffer⟩ := ih
    exact ⟨⟨hdoomed.failing.close, hdoomed.queued, hdoomed.deaf⟩, hcalls, hbuffer⟩
  | drop h s r _ ih =>
    obtain ⟨hdoomed, hcalls, hbuffer⟩ := ih
    exact ⟨⟨hdoomed.failing.close, hdoomed.queued, hdoomed.deaf⟩, hcalls, hbuffer⟩
  | share h s r r' _ ih => exact ih

end

/-- Writes have succeeded so far, and a connection that is over has failed with `e`. -/
structure Writing (e : FrameError) (s : State) : Prop where
  forwards : s.phase.Forwards
  resting : ¬ s.phase.Writes → s.outbox.current = none
  failure : ∀ f, s.phase = .finished f → f = some e

/-- Whatever `t` leads to, with what has been sent, is what `s` leads to. -/
def Keeps (late : Prop) (gs : List Reading) (s t : State) : Prop :=
  ∀ more frames, t.phase.Leads late more frames →
    ∃ all, s.phase.Leads late (gs ++ more) all ∧ s.sent ++ all = t.sent ++ frames

section
variable {late : Prop} {e : FrameError} {clock : Clock} {s t u : State} {r r' : Registry}

theorem Keeps.refl (s : State) : Keeps late [] s s := fun _ frames h => ⟨frames, h, rfl⟩

theorem Keeps.trans {gs gs' : List Reading} (h : Keeps late gs s t) (h' : Keeps late gs' t u) :
    Keeps late (gs ++ gs') s u := by
  intro more frames hframes
  obtain ⟨frames', hframes', heq'⟩ := h' more frames hframes
  obtain ⟨all, hall, heq⟩ := h (gs' ++ more) frames' hframes'
  exact ⟨all, by rwa [List.append_assoc], heq.trans heq'⟩

/-- Pieces of writing leave the frames that are sent as they are. -/
theorem keeps_of_push (outbox : Outbox) (hsent : { s with outbox }.sent = s.sent) :
    Keeps late [] s { s with outbox } :=
  fun _ frames h => ⟨frames, h, by rw [hsent]⟩

/-- A step of a stream keeps what it leads to if the handler and the queue are together good for
the same responses. -/
theorem keeps_of_stream {call : Call} {x y : Stream} {watch : Watch} (taken : List EchoResponse)
    (hp : s.phase = .work call (.stream x) watch) (ht : t.phase = .work call (.stream y) watch)
    (hsent : t.sent = s.sent ++ messages taken)
    (hflush : ∀ responses result, y.handler.flush = (responses, some result) →
      ∃ more, x.handler.flush = (more, some result) ∧
        x.queue ++ more = taken ++ (y.queue ++ responses)) : Keeps late [] s t := by
  intro more frames hframes
  rw [ht] at hframes
  cases hframes with
  | stream _ _ _ responses result hy =>
    obtain ⟨more', hx, heq⟩ := hflush responses result hy
    refine ⟨_, by rw [hp]; exact .stream call x watch more' result hx, ?_⟩
    rw [heq, hsent]
    simp [messages]

/-- A step to a phase that leads to certain frames and looks at nothing any more. -/
theorem keeps_of_decided {p : Phase} {gs : List Reading} {all frames : List ServerFrame}
    (hp : s.phase = p) (hall : p.Leads late gs all)
    (ht : ∀ more fs, t.phase.Leads late more fs → more = [] ∧ fs = frames)
    (hsent : s.sent ++ all = t.sent ++ frames) : Keeps late gs s t := by
  intro more fs hfs
  obtain ⟨rfl, rfl⟩ := ht more fs hfs
  exact ⟨all, by rwa [hp, List.append_nil], hsent⟩

theorem writing_of_stream {call : Call} {x : Stream} {watch : Watch}
    (ht : t.phase = .work call (.stream x) watch) (hf : x.forwarding = true) : Writing e t where
  forwards := by
    intro call' x' watch' hp
    obtain ⟨-, hx, -⟩ := Phase.work.inj (ht.symm.trans hp)
    rwa [← Work.stream.inj hx]
  resting h := absurd trivial (by rwa [ht] at h)
  failure f h := by cases ht.symm.trans h

/-- A phase that is neither a stream nor an end, with nothing in hand to write. -/
theorem writing_of_quiet (hcur : t.outbox.current = none)
    (hstream : ∀ call x watch, t.phase ≠ .work call (.stream x) watch)
    (hfinished : ∀ f, t.phase = .finished f → f = some e) : Writing e t where
  forwards call x watch hp := absurd hp (hstream call x watch)
  resting _ := hcur
  failure := hfinished

/-- While writes succeed, a doomed connection keeps to what it leads to. -/
theorem keeps_step (hmove : Move clock (s, r) (t, r')) (h : Doomed e s) (hw : Writing e s)
    (hgone : s.outbox.gone = false)
    (hlate : ∀ call deadline request watch, s.phase = .work call (.delay deadline request) watch →
      deadline ≤ clock.elapsed → late) :
    Writing e t ∧ Keeps late (lookedAt clock r s t) s t := by
  have hnil : (∀ call body watch, s.phase ≠ .work call (.request body) watch) →
      lookedAt clock r s t = [] := fun hno =>
    lookedAt_eq_nil clock r t fun call body watch hp => absurd hp (hno call body watch)
  have hclose {all : List ServerFrame} (more : List Reading) (fs : List ServerFrame)
      (hfs : (Phase.close all).Leads late more fs) : more = [] ∧ fs = all := by
    cases hfs
    exact ⟨rfl, rfl⟩
  cases hmove with
  | fetch s r n hr hparse ha hn => exact (h.not_fetched hparse ha).elim
  -- the main loop meets the frame once more, and that ends the connection
  | read s r n k got inbox hk hpoll =>
    obtain ⟨rfl, rfl⟩ := h.got hpoll
    obtain ⟨hp, rfl⟩ := h.idle_of_reads hk
    have hcur := hw.resting (by simp [hp, Phase.Writes])
    rw [hnil (by simp [hp])]
    exact ⟨writing_of_quiet hcur (by simp [onIdle]) (by simp [onIdle]),
      keeps_of_decided hp .idle (fun more fs hfs => by cases hfs; exact ⟨rfl, rfl⟩) rfl⟩
  | takeUp s r path metadata hp hq =>
    rw [h.queued] at hq
    cases hq
  | watch s r n call work got inbox hp hpoll => exact (h.not_watched hp).elim
  | answer s r call body watch o r' hp hs =>
    have hlooked : lookedAt clock r s { s with phase := finish (o.map some) } =
        [⟨clock.now, r⟩] := by simp [lookedAt, hp, finish]
    rw [hlooked]
    exact ⟨writing_of_quiet (hw.resting (by simp [hp, Phase.Writes])) (by simp [finish])
      (by simp [finish]), keeps_of_decided hp
        (.answered call body watch ⟨clock.now, r⟩ o (by rw [hs])) hclose rfl⟩
  -- what a held back call leads to is known only when its delay is over
  | delay s r call body watch n request r' hp hs =>
    rw [show lookedAt clock r s _ = [⟨clock.now, r⟩] by simp [lookedAt, hp]]
    refine ⟨writing_of_quiet (hw.resting (by simp [hp, Phase.Writes])) (by simp) (by simp), ?_⟩
    intro more frames hframes
    obtain rfl : more = [] := by cases hframes <;> rfl
    refine ⟨frames, ?_, rfl⟩
    rw [hp]
    exact .delayed call body watch ⟨clock.now, r⟩ n request _ frames (by rw [hs]) hframes
  | cancel s r call deadline request hp =>
    rw [hnil (by simp [hp])]
    exact ⟨writing_of_quiet (hw.resting (by simp [hp, Phase.Writes])) (by simp [reject, finish])
      (by simp [reject, finish]), keeps_of_decided hp
        (.cancelled call deadline request .cancelled) hclose rfl⟩
  | expire s r call deadline request watch hp hd =>
    rw [hnil (by simp [hp])]
    exact ⟨writing_of_quiet (hw.resting (by simp [hp, Phase.Writes])) (by simp [finish])
      (by simp [finish]), keeps_of_decided hp
        (.expired call deadline request watch (hlate call deadline request watch hp hd)) hclose rfl⟩
  | expand s r call x body watch hp hx =>
    rw [hnil (by simp [hp])]
    refine ⟨writing_of_stream rfl (hw.forwards call x watch hp),
      keeps_of_stream [] hp rfl (by simp [State.sent, messages]) ?_⟩
    intro responses result hflush
    refine ⟨responses, ?_, rfl⟩
    rw [hx, ← hflush]
    unfold startExpand
    cases hr : Service.decodeRequest EchoRequest.decoder body <;> simp [Handler.flush, hr]
  | sent s r call x verdict watch hp hx =>
    rw [hnil (by simp [hp])]
    refine ⟨writing_of_stream rfl (hw.forwards call x watch hp),
      keeps_of_stream [] hp rfl (by simp [State.sent, messages]) ?_⟩
    intro responses result hflush
    exact ⟨responses, by rw [hx, ← hflush]; rfl, rfl⟩
  | send s r call x y next watch hp hx hf hroom =>
    rw [hnil (by simp [hp])]
    refine ⟨writing_of_stream rfl hf, keeps_of_stream [] hp rfl (by simp [State.sent, messages]) ?_⟩
    intro responses result hflush
    exact ⟨y :: responses, by rw [flush_of_sends _ next y hx, hflush], by simp⟩
  | refuse s r call x y next watch hp hx hf =>
    rw [hw.forwards call x watch hp] at hf
    cases hf
  -- a response goes from the queue to what is sent
  | forward s r call x y rest watch hp hcur hf hq =>
    rw [hnil (by simp [hp])]
    refine ⟨writing_of_stream rfl hf, keeps_of_stream [y] hp rfl ?_ ?_⟩
    · simp [State.sent, hcur, Outbox.begin, Outbox.written, messages]
    · intro responses result hflush
      exact ⟨responses, hflush, by simp [hq]⟩
  | endStream s r call x result watch hp hx hcur hf hq =>
    rw [hnil (by simp [hp])]
    exact ⟨writing_of_quiet hcur (by simp [streamEnd, finish]) (by simp [streamEnd, finish]),
      keeps_of_decided hp (.stream call x watch [] result (by rw [hx]; rfl)) hclose
        (by simp [hq, messages, State.sent])⟩
  | giveUp s r call x result watch hp hx hcur hf =>
    rw [hw.forwards call x watch hp] at hf
    cases hf
  | writePart s r f n outbox hwrites hcur hpush =>
    rw [hnil fun call body watch hp => by simp [hp, Phase.Writes] at hwrites]
    obtain ⟨m, -, rfl, -⟩ := push_part _ _ f n hpush
    exact ⟨⟨hw.forwards, fun hno => absurd hwrites hno, hw.failure⟩,
      keeps_of_push _ (by simp [State.sent, Outbox.written, hcur])⟩
  | write s r f n outbox hwrites hcur hpush =>
    rw [hnil fun call body watch hp => by simp [hp, Phase.Writes] at hwrites]
    obtain ⟨hlog, hnone, -⟩ := push_complete _ _ f n hpush
    exact ⟨⟨hw.forwards, fun hno => absurd hwrites hno, hw.failure⟩,
      keeps_of_push _ (by simp [State.sent, Outbox.written, hcur, hlog, hnone])⟩
  | failStream s r call x watch f n hp hcur hpush =>
    rw [push_failed _ f n hpush] at hgone
    cases hgone
  | failLast s r frames f n hp hcur hpush =>
    rw [push_failed _ f n hpush] at hgone
    cases hgone
  | beginLast s r f rest hp hcur =>
    rw [hnil (by simp [hp])]
    refine ⟨⟨fun call x watch hx => ?_, fun hno => absurd trivial hno, fun failure hf => ?_⟩,
      keeps_of_decided hp (.close (f :: rest)) hclose
        (by simp [State.sent, hcur, Outbox.begin, Outbox.written])⟩
    · cases hx
    · cases hf
  | endLast s r hp hcur =>
    rw [hnil (by simp [hp])]
    exact ⟨writing_of_quiet hcur (by simp) (by simp),
      keeps_of_decided hp (.close []) (fun more fs hfs => by cases hfs; exact ⟨rfl, rfl⟩) rfl⟩

end

section
variable {late : Prop} {e : FrameError} {start a : State × Registry} {h : History}

/-- What comes from outside changes neither what a connection leads to nor what it has sent. -/
theorem steady_of_news {gs : List Reading} {s t : State}
    (hsteady : Writing e s ∧ Keeps late gs start.1 s) (hp : t.phase = s.phase)
    (hcur : t.outbox.current = s.outbox.current) (hsent : t.sent = s.sent) :
    Writing e t ∧ Keeps late gs start.1 t := by
  obtain ⟨hw, hkeeps⟩ := hsteady
  refine ⟨⟨by rw [hp]; exact hw.forwards, by rw [hp, hcur]; exact hw.resting,
    by rw [hp]; exact hw.failure⟩, ?_⟩
  intro more frames hframes
  rw [hp] at hframes
  rw [hsent]
  exact hkeeps more frames hframes

theorem steady_run (hrun : Run start h a) (hstart : Doomed e start.1)
    (hw : start.1.outbox.gone = false → Writing e start.1) (hgone : a.1.outbox.gone = false) :
    Writing e a.1 ∧ Keeps True h.readings start.1 a.1 := by
  induction hrun with
  | start => exact ⟨hw hgone, Keeps.refl _⟩
  | step h s r t r' clock hrun hstep ih =>
    have hmove := hstep.move
    have hopen : s.outbox.gone = false := (peer_of_move hmove).2.symm.trans hgone
    obtain ⟨hws, hkeeps⟩ := ih hopen
    obtain ⟨hwt, hnext⟩ := keeps_step hmove (doomed_run hrun hstart).1 hws hopen
      fun _ _ _ _ _ _ => trivial
    exact ⟨hwt, hkeeps.trans hnext⟩
  | receive h s r bytes _ hopen ih => exact steady_of_news (ih hgone) rfl rfl rfl
  | close h s r _ ih => exact steady_of_news (ih hgone) rfl rfl rfl
  | drop h s r _ ih => cases hgone
  | share h s r r' _ ih => exact ih hgone

/-- No delay is over. -/
def OnTime (time : Nat) (s : State) : Prop :=
  ∀ call deadline request watch, s.phase = .work call (.delay deadline request) watch →
    time < deadline

theorem pos_of_delayed {m : Method} {metadata : Metadata} {body : Json} {now : Time.Timestamp}
    {registry : Registry} {n : Nat} {request : BlockRequest}
    (h : (Service.start m metadata body now registry).1 = .delayed n request) :
    m = .block ∧ 0 < n := by
  cases m with
  | block =>
    refine ⟨rfl, ?_⟩
    unfold Service.start at h
    dsimp only at h
    split at h
    · cases h
    · split at h
      · cases h
      · rename_i hdelay
        cases h
        omega
  | wait =>
    unfold Service.start at h
    dsimp only at h
    split at h <;> cases h
  | expand => cases h
  | collect => cases h
  | chat => cases h
  | _ =>
    unfold Service.start Service.answer at h
    dsimp only at h
    split at h <;> cases h

theorem onTime_step {time : Nat} {now : Time.Timestamp} {s t : State} {r r' : Registry}
    (hmove : Move ⟨time, now⟩ (s, r) (t, r')) (h : Doomed e s) (hon : OnTime time s) :
    OnTime time t := by
  intro call deadline request watch ht
  cases hmove with
  | fetch s r n hr hparse ha hn => exact hon call deadline request watch ht
  | read s r n k got inbox hk hpoll =>
    obtain ⟨rfl, rfl⟩ := h.got hpoll
    obtain ⟨-, rfl⟩ := h.idle_of_reads hk
    cases ht
  | takeUp s r path metadata hp hq =>
    rw [h.queued] at hq
    cases hq
  | watch s r n call work got inbox hp hpoll => exact (h.not_watched hp).elim
  | delay s r call body watch n request r' hp hs =>
    obtain ⟨-, hn⟩ := pos_of_delayed (congrArg Prod.fst hs)
    cases ht
    show time < time + n
    omega
  | writePart s r f n outbox hw hcur hpush => exact hon call deadline request watch ht
  | write s r f n outbox hw hcur hpush => exact hon call deadline request watch ht
  | _ => cases ht

theorem steady_paced {begun time : Nat} (hrun : Paced start begun time h a)
    (hstart : Doomed e start.1) (hon : OnTime begun start.1)
    (hw : start.1.outbox.gone = false → Writing e start.1) (hgone : a.1.outbox.gone = false) :
    OnTime time a.1 ∧ Writing e a.1 ∧ Keeps False h.readings start.1 a.1 := by
  induction hrun with
  | start => exact ⟨hon, hw hgone, Keeps.refl _⟩
  | step time h s r t r' now hrun hstep ih =>
    have hmove := hstep.move
    have hdoomed := (doomed_run hrun.run hstart).1
    have hopen : s.outbox.gone = false := (peer_of_move hmove).2.symm.trans hgone
    obtain ⟨hons, hws, hkeeps⟩ := ih hopen
    have hlate : ∀ call deadline request watch,
        s.phase = .work call (.delay deadline request) watch → deadline ≤ time → False :=
      fun call deadline request watch hp hd =>
        absurd hd (Nat.not_le.mpr (hons call deadline request watch hp))
    obtain ⟨hwt, hnext⟩ := keeps_step hmove hdoomed hws hopen hlate
    exact ⟨onTime_step hmove hdoomed hons, hwt, hkeeps.trans hnext⟩
  | pass time n h s r hrun hstill hdue ih =>
    obtain ⟨-, hsteady⟩ := ih hgone
    refine ⟨fun call deadline request watch hp => ?_, hsteady⟩
    -- a handler that is cancelled in its delay can move, so no time passes
    have hdeaf := (doomed_run hrun.run hstart).1.deaf
    rw [hp] at hdeaf
    obtain rfl : watch = .cancelled := hdeaf
    exact absurd ((Move.cancel s r call deadline request hp).step (whole_of_phase hp rfl))
      (hstill epoch _)
  | receive time h s r bytes _ hopen ih =>
    obtain ⟨hons, hsteady⟩ := ih hgone
    exact ⟨hons, steady_of_news hsteady rfl rfl rfl⟩
  | close time h s r _ ih =>
    obtain ⟨hons, hsteady⟩ := ih hgone
    exact ⟨hons, steady_of_news hsteady rfl rfl rfl⟩
  | drop time h s r _ ih => cases hgone
  | share time h s r r' _ ih => exact ih hgone

theorem exists_leads (late : Prop) {s : State} (hdeaf : s.phase.Deaf) :
    ∃ more frames, s.phase.Leads late more frames := by
  cases hp : s.phase with
  | idle => exact ⟨[], [], .idle⟩
  | gather call body => simp [hp, Phase.Deaf] at hdeaf
  | collect call contents => simp [hp, Phase.Deaf] at hdeaf
  | close frames => exact ⟨[], frames, .close frames⟩
  | finished failure => exact ⟨[], [], .finished failure⟩
  | work call work watch =>
    cases work with
    | delay deadline request => exact ⟨[], _, .cancelled call deadline request watch⟩
    | request body =>
      let g : Reading := ⟨epoch, .empty⟩
      cases hs : (Service.start call.method call.metadata body g.now g.registry).1 with
      | done o => exact ⟨[g], _, .answered call body watch g o hs⟩
      | delayed n request =>
        exact ⟨[g], _, .delayed call body watch g n request 0 _ hs
          (.cancelled call 0 request watch)⟩
    | stream x =>
      rw [hp] at hdeaf
      obtain ⟨responses, result, hx⟩ : ∃ responses result,
          x.handler.flush = (responses, some result) := by
        cases hh : x.handler with
        | start body =>
          cases hr : Service.decodeRequest EchoRequest.decoder body <;>
            simp [Handler.flush, hr]
        | send pending verdict => exact ⟨pending, verdict, rfl⟩
        | listen => exact absurd (by rw [hh]; trivial) hdeaf.2
        | reply r => exact absurd (by rw [hh]; trivial) hdeaf.2
        | done result => exact ⟨[], result, rfl⟩
      exact ⟨[], _, .stream call x watch responses result hx⟩

end

end EchoServer.Connection
