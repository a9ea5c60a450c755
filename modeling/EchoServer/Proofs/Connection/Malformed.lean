import Mathlib
import EchoServer.Proofs.Connection.Doomed

namespace EchoServer.Connection

open Wire (FrameError Inbox Received)

/-- The frames that are still sent when somebody meets a malformed frame in the state `s`. A delayed
call may still come to its end if it can be over before anybody notices, which `late` says. -/
inductive Aftermath (late : Prop) (e : FrameError) (s : State) :
    List Reading → List ServerFrame → Prop
  /-- The main loop meets it, or whoever reads the single request of a call. -/
  | unanswered (hp : s.phase = .idle ∨ ∃ call body, s.phase = .gather call body) :
      Aftermath late e s [] []
  | collecting (call contents) (hm : call.method = .collect)
      (hp : s.phase = .collect call contents) :
      Aftermath late e s [] [.trailers (connectionFailed e) .empty]
  /-- The echoes that are under way are still written. -/
  | chatting (call x watch) (hm : call.method = .chat)
      (hp : s.phase = .work call (.stream x) watch) (hx : x.handler = .listen) :
      Aftermath late e s [] (messages x.queue ++ [.trailers (connectionFailed e) .empty])
  /-- The watcher of a delayed call meets it. -/
  | blocking (call deadline request) (hm : call.method = .block)
      (hp : s.phase = .work call (.delay deadline request) .on) :
      Aftermath late e s [] [.trailers Service.cancelledInDelay .empty]
  /-- The watcher meets it before the call has looked at its request and is delayed. -/
  | starting (call body g n request) (hm : call.method = .block)
      (hp : s.phase = .work call (.request body) .on)
      (hs : (Service.start call.method call.metadata body g.now g.registry).1 =
        .delayed n request) :
      Aftermath late e s [g] [.trailers Service.cancelledInDelay .empty]
  | answered (call body g o) (hp : s.phase = .work call (.request body) .on)
      (hs : (Service.start call.method call.metadata body g.now g.registry).1 = .done o) :
      Aftermath late e s [g] (lastFrames (o.map some))
  | streaming (call x responses result) (hp : s.phase = .work call (.stream x) .on)
      (hx : x.handler.flush = (responses, some result)) :
      Aftermath late e s [] (messages (x.queue ++ responses) ++
        lastFrames ((Outcome.of call.metadata result).map fun _ => none))
  /-- The delay of a call is over in spite of all. -/
  | expired (call gs frames) (hm : call.method = .block) (hlate : late)
      (hp : ∃ work, s.phase = .work call work .on)
      (h : s.phase.flush gs = some ⟨frames, .idle, []⟩) :
      Aftermath late e s gs frames

section
variable {late : Prop} {capacity : Nat} {reads : Bool} {registry r : Registry} {h : History}
  {s t : State} {e : FrameError}

/-- Whoever meets a malformed frame: nothing is sent by that, and nobody reads on. -/
theorem doomed_of_met (hrun : Run (State.init capacity reads, registry) h (s, r))
    (hmet : Hears s (.failed e) t ∨ Meets s (.failed e) t) :
    Doomed e t ∧ t.outbox = s.outbox ∧ (s.outbox.gone = false → Writing e t) := by
  obtain ⟨accounts, hrecorded⟩ := exists_recorded hrun
  obtain ⟨taken, -, hstage⟩ := accounted_run hrecorded
  have horderly := orderly_run capacity reads registry h (s, r) hrun
  rcases hmet with ⟨k, n, inbox, hbusy, hk, hpoll⟩ | hmeets
  -- a call that reads for itself has put no other call aside, and listens no longer
  · obtain ⟨rfl, hfailing⟩ := Wire.failing_of_poll hpoll
    unfold State.reads? at hk
    split at hk
    · rename_i hp
      exact absurd hp hbusy
    · rename_i call body hp
      obtain rfl := Option.some.inj hk
      obtain ⟨hq, -, c, ⟨-, hcur, -⟩, -⟩ := (stage_gather_iff hp).mp hstage
      exact ⟨⟨hfailing, hq, trivial⟩, rfl,
        fun _ => writing_of_quiet hcur (by simp [onGather]) (by simp [onGather])⟩
    · rename_i call contents hp
      obtain rfl := Option.some.inj hk
      obtain ⟨hq, -, c, bodies, ⟨-, hcur, -⟩, -⟩ := (stage_collect_iff hp).mp hstage
      exact ⟨⟨hfailing, hq, trivial⟩, rfl, fun _ => writing_of_quiet hcur
        (fun call' x watch hx => by cases hx) (fun f hf => by cases hf)⟩
    · rename_i call x watch hp
      split at hk
      · rename_i hx
        obtain rfl := Option.some.inj hk
        obtain ⟨front, c, base, bodies, -, -, hstream⟩ := (stage_stream_iff hp).mp hstage
        obtain ⟨-, rfl, hq⟩ := hstream.listens (by rw [hx]; trivial)
        refine ⟨⟨hfailing, hq, by simp, id⟩, rfl, fun hgone => writing_of_stream rfl ?_⟩
        exact ((orderly_stream_iff hp).mp (horderly hgone)).2.1
      · cases hk
    · cases hk
  · cases hmeets with
    | idle n inbox hp hq hpoll =>
      obtain ⟨rfl, hfailing⟩ := Wire.failing_of_poll hpoll
      obtain ⟨hcur, -⟩ := (stage_idle_iff hp).mp hstage
      exact ⟨⟨hfailing, hq, trivial⟩, rfl,
        fun _ => writing_of_quiet hcur (by simp [onIdle]) (by simp [onIdle])⟩
    -- a watcher that is on has not met a call before
    | watch n call work inbox hp hpoll =>
      obtain ⟨rfl, hfailing⟩ := Wire.failing_of_poll hpoll
      have hq := queued_of_watch hp hstage
      refine ⟨⟨hfailing, by simp [onWatch, hq], ?_⟩, rfl, fun hgone => ?_⟩
      · cases work with
        | request body => exact rfl
        | delay deadline request => exact rfl
        | stream x =>
          obtain ⟨front, c, base, bodies, -, -, hstream⟩ := (stage_stream_iff hp).mp hstage
          refine ⟨by simp [onWatch], fun hl => ?_⟩
          obtain ⟨-, hoff, -⟩ := hstream.listens hl
          cases hoff
      · by_cases hw : ∃ x, work = .stream x
        · obtain ⟨x, rfl⟩ := hw
          exact writing_of_stream rfl ((orderly_stream_iff hp).mp (horderly hgone)).2.1
        · have hstream : ∀ x, work ≠ .stream x := fun x hx => hw ⟨x, hx⟩
          obtain ⟨hcur, -⟩ := (orderly_work_iff hp hstream).mp (horderly hgone)
          exact writing_of_quiet hcur (fun _ x _ hx => hstream x (Phase.work.inj hx).2.1)
            (fun f hf => by cases hf)

/-- What a connection leads to that has just met a malformed frame. -/
theorem aftermath_of_leads (hrun : Run (State.init capacity reads, registry) h (s, r))
    (hmet : Hears s (.failed e) t ∨ Meets s (.failed e) t) {gs : List Reading}
    {frames : List ServerFrame} (hleads : t.phase.Leads late gs frames) :
    Aftermath late e s gs frames := by
  obtain ⟨accounts, hrecorded⟩ := exists_recorded hrun
  obtain ⟨taken, -, hstage⟩ := accounted_run hrecorded
  rcases hmet with ⟨k, n, inbox, hbusy, hk, hpoll⟩ | hmeets
  · unfold State.reads? at hk
    split at hk
    · rename_i hp
      exact absurd hp hbusy
    · rename_i call body hp
      obtain rfl := Option.some.inj hk
      cases hleads
      exact .unanswered (.inr ⟨call, body, hp⟩)
    · rename_i call contents hp
      obtain rfl := Option.some.inj hk
      cases hleads
      exact .collecting call contents ((stage_collect_iff hp).mp hstage).2.1 hp
    · rename_i call x watch hp
      split at hk
      · rename_i hx
        obtain rfl := Option.some.inj hk
        obtain ⟨front, c, base, bodies, -, -, hstream⟩ := (stage_stream_iff hp).mp hstage
        cases hleads with
        | stream _ _ _ responses result hflush =>
          obtain ⟨rfl, rfl⟩ : responses = [] ∧ result = .error (connectionFailed e) := by
            simpa [onListen, requestOf, Handler.flush, Except.bind, eq_comm] using hflush
          have hm : call.method = .chat := (hstream.listens (by rw [hx]; trivial)).1
          rw [List.append_nil]
          exact .chatting call x watch hm hp hx
      · cases hk
    · cases hk
  · cases hmeets with
    | idle n inbox hp hq hpoll =>
      cases hleads
      exact .unanswered (.inl hp)
    | watch n call work inbox hp hpoll =>
      cases hleads with
      | stream _ x _ responses result hx => exact .streaming call x responses result hp hx
      | cancelled _ deadline request _ =>
        obtain ⟨-, -, c, body, g, n, -, -, -, hs⟩ := (stage_delay_iff hp).mp hstage
        exact .blocking call deadline request (pos_of_delayed hs).1 hp
      | expired _ deadline request _ hlate =>
        obtain ⟨-, -, c, body, g, n, -, -, -, hs⟩ := (stage_delay_iff hp).mp hstage
        exact .expired call [] _ (pos_of_delayed hs).1 hlate ⟨_, hp⟩ (by rw [hp]; rfl)
      | answered _ body _ g o hs => exact .answered call body g o hp hs
      | delayed _ body _ g n request deadline _ hs hframes =>
        obtain ⟨hm, -⟩ := pos_of_delayed hs
        cases hframes with
        | cancelled => exact .starting call body g n request hm hp hs
        | expired _ _ _ _ hlate =>
          exact .expired call [g] _ hm hlate ⟨_, hp⟩ (by rw [hp]; simp [Phase.flush, answerAt, hs])

end

section
variable {late : Prop} {capacity : Nat} {reads : Bool} {registry r : Registry} {h h' : History}
  {s t : State} {e : FrameError} {a : State × Registry}

/-- Who reads a frame writes nothing. -/
theorem outbox_of_met (hmet : Hears s (.failed e) t ∨ Meets s (.failed e) t) :
    t.outbox = s.outbox ∧ t.capacity = s.capacity := by
  rcases hmet with hhears | hmeets
  · cases hhears
    exact ⟨rfl, rfl⟩
  · cases hmeets <;> exact ⟨rfl, rfl⟩

theorem onTime_of_met {time : Nat} (hmet : Hears s (.failed e) t ∨ Meets s (.failed e) t)
    (hon : OnTime time s) : OnTime time t := by
  intro call deadline request watch ht
  rcases hmet with ⟨k, n, inbox, hbusy, hk, hpoll⟩ | hmeets
  · unfold State.reads? at hk
    split at hk
    · rename_i hp
      exact absurd hp hbusy
    · obtain rfl := Option.some.inj hk
      cases ht
    · obtain rfl := Option.some.inj hk
      cases ht
    · split at hk
      · obtain rfl := Option.some.inj hk
        cases ht
      · cases hk
    · cases hk
  · cases hmeets with
    | idle n inbox hp hq hpoll => cases ht
    | watch n call' work inbox hp hpoll =>
      obtain ⟨rfl, rfl, -⟩ := Phase.work.inj ht
      exact hon call' deadline request .on hp

theorem finished_of_steady (hrun : Run (State.init capacity reads, registry) h (s, r))
    (hmet : Hears s (.failed e) t ∨ Meets s (.failed e) t) (hsent : t.sent = s.sent)
    (hfinished : a.1.isFinished = true) (hw : Writing e a.1)
    (hkeeps : Keeps late h'.readings t a.1) :
    a.1.phase = .finished (some e) ∧ ∃ frames, Aftermath late e s h'.readings frames ∧
      a.1.outbox.written = s.sent ++ frames := by
  unfold State.isFinished at hfinished
  split at hfinished
  · rename_i failure hp
    have hcur : a.1.outbox.current = none := hw.resting (by simp [hp, Phase.Writes])
    obtain ⟨all, hall, heq⟩ := hkeeps [] [] (by rw [hp]; exact .finished failure)
    rw [List.append_nil] at hall heq
    refine ⟨by rw [hp, hw.failure failure hp], all, aftermath_of_leads hrun hmet hall, ?_⟩
    rw [← hsent, heq]
    simp [State.sent, hcur]
  · cases hfinished

end

/-- A malformed frame is met again by whoever reads again, and no call is taken up behind it. The
running call comes to its end, and the connection fails with the error of the frame. -/
theorem malformed_frame_is_final :
    (∀ {α : Type} (frame : Json.Decoder α) (i j : Inbox) (e : FrameError),
      (i.next frame = (some (.failed e), j) ∨ ∃ n, i.poll frame n = some (some (.failed e), j)) →
      ∀ k, Inbox.Later frame j k → k.buffer = j.buffer ∧ k.next frame = (some (.failed e), k) ∧
        ∀ n, k.poll frame n = some (some (.failed e), k)) ∧
    (∀ (capacity : Nat) (reads : Bool) (registry : Registry) (h : History) (s t : State)
        (r : Registry) (e : FrameError),
      Run (State.init capacity reads, registry) h (s, r) →
      Hears s (.failed e) t ∨ Meets s (.failed e) t → ∀ (h' : History) (a : State × Registry),
      Run (t, r) h' a →
        h'.calls = [] ∧
        (∀ n, a.1.inbox.poll ClientFrame.decoder n = some (some (.failed e), a.1.inbox)) ∧
        (a.1.outbox.gone = false →
          (∃ more frames, Aftermath True e s (h'.readings ++ more) frames ∧
            a.1.outbox.written <+: s.sent ++ frames) ∧
          (a.1.isFinished = true → a.1.phase = .finished (some e) ∧
            ∃ frames, Aftermath True e s h'.readings frames ∧
              a.1.outbox.written = s.sent ++ frames) ∧
          (reads = true → Acc (fun t s => Next s t) a.1 ∧
            (Settled a.1 → a.1.isFinished = true)))) ∧
    (∀ (capacity : Nat) (reads : Bool) (registry : Registry) (begun time time' : Nat)
        (h h' : History) (s t : State) (r : Registry) (e : FrameError) (a : State × Registry),
      Paced (State.init capacity reads, registry) begun time h (s, r) →
      Hears s (.failed e) t ∨ Meets s (.failed e) t → OnTime time s →
      Paced (t, r) time time' h' a → a.1.outbox.gone = false → a.1.isFinished = true →
        ∃ frames, Aftermath False e s h'.readings frames ∧
          a.1.outbox.written = s.sent ++ frames) := by
  refine ⟨?_, ?_, ?_⟩
  · intro α frame i j e hfailed k hlater
    have hfailing : j.Failing frame e := by
      rcases hfailed with hnext | ⟨n, hpoll⟩
      · exact (Wire.failing_of_next hnext).2
      · obtain ⟨rfl, hfailing⟩ := Wire.failing_of_poll hpoll
        exact hfailing
    obtain ⟨hk, hbuffer⟩ := hfailing.later hlater
    exact ⟨hbuffer, hk.next, hk.poll⟩
  · intro capacity reads registry h s t r e hrun hmet h' a hmore
    obtain ⟨hdoomed, hout, hwriting⟩ := doomed_of_met hrun hmet
    obtain ⟨hend, hcalls, -⟩ := doomed_run hmore hdoomed
    have hsent : t.sent = s.sent := by simp [State.sent, hout]
    refine ⟨hcalls, hend.failing.poll, fun hgone => ?_⟩
    obtain ⟨hw, hkeeps⟩ := steady_run hmore hdoomed (fun hg => hwriting (hout ▸ hg)) hgone
    refine ⟨?_, fun hfinished => ?_, fun hreads => ⟨next_wellFounded.apply _, fun hsettled => ?_⟩⟩
    -- whatever the connection leads to from here, it was led to from where the frame was met
    · obtain ⟨more, frames, hframes⟩ := exists_leads True hend.deaf
      obtain ⟨all, hall, heq⟩ := hkeeps more frames hframes
      refine ⟨more, all, aftermath_of_leads hrun hmet hall, ?_⟩
      rw [← hsent, heq]
      exact (List.prefix_append _ _).trans (List.prefix_append _ _)
    · exact finished_of_steady hrun hmet hsent hfinished hw hkeeps
    · subst hreads
      obtain ⟨hroom, hcap⟩ := room_of_run capacity registry h (s, r) hrun
      obtain ⟨houtbox, hcapacity⟩ := outbox_of_met hmet
      obtain ⟨hroom, hcap⟩ := room_run hmore ⟨houtbox ▸ hroom, hcapacity ▸ hcap⟩
      rcases atRest_of_settled a.1 hsettled hgone hroom hcap with hfinished | ⟨-, hdry, -⟩
      · exact hfinished
      · exact (hend.not_dry hdry).elim
  · intro capacity reads registry begun time time' h h' s t r e a hrun hmet hon hmore hgone
      hfinished
    obtain ⟨hdoomed, hout, hwriting⟩ := doomed_of_met hrun.run hmet
    have hsent : t.sent = s.sent := by simp [State.sent, hout]
    obtain ⟨-, hw, hkeeps⟩ := steady_paced hmore hdoomed (onTime_of_met hmet hon)
      (fun hg => hwriting (hout ▸ hg)) hgone
    exact (finished_of_steady hrun.run hmet hsent hfinished hw hkeeps).2

/-- The bytes of a call of `Block`, and a line behind them that is no length. -/
def junkBehindCall : List UInt8 :=
  [ClientFrame.call "Block" .empty,
    .message (.object [("response_delay", .object [("seconds", .int32 1)])]),
    .halfClose].flatMap (fun f => Wire.encode f.toJson) ++ [0x78, 0x0D, 0x0A]

/-- The connection that has read the call, which is delayed. -/
def delayed (watch : Watch) : State :=
  { inbox := ⟨[0x78, 0x0D, 0x0A], [], false⟩, outbox := .empty true, queued := none, capacity := 1,
    phase := .work ⟨.block, .empty⟩ (.delay 1000000000 ⟨⟨1, 0⟩, none, none⟩) watch }

set_option maxRecDepth 10000 in
theorem run_junkBehindCall :
    run ⟨0, epoch⟩ 5 ((State.init 1 true).receive junkBehindCall, .empty) =
      (delayed .on, .empty) := by
  cbv

/-- A call of `Block` in its delay, with a line behind it that is no length. -/
theorem malformed_frame_is_final_block :
    ∃ (h h' : History) (s t : State) (a : State × Registry),
      (s.phase = .work ⟨.block, .empty⟩ (.delay 1000000000 ⟨⟨1, 0⟩, none, none⟩) .on ∧
        Paced (State.init 1 true, .empty) 0 0 h (s, .empty) ∧ OnTime 0 s ∧
        Meets s (.failed (.invalidLength "x")) t ∧ Paced (t, .empty) 0 0 h' a ∧
        a.1.outbox.gone = false ∧ a.1.isFinished = true) ∧
      (∀ n, t.inbox.poll ClientFrame.decoder n =
        some (some (.failed (.invalidLength "x")), t.inbox)) ∧
      h'.calls = [] ∧ a.1.phase = .finished (some (.invalidLength "x")) ∧
      ∃ frames, Aftermath False (.invalidLength "x") s h'.readings frames ∧
        a.1.outbox.written = s.sent ++ frames := by
  have hsent : Paced (State.init 1 true, .empty) 0 0
      { History.empty with received := [] ++ junkBehindCall }
      ((State.init 1 true).receive junkBehindCall, .empty) :=
    .receive _ _ _ _ junkBehindCall .start rfl
  obtain ⟨h, hrun⟩ := exists_paced_of_schedule epoch 5 hsent
  rw [run_junkBehindCall] at hrun
  have hpoll : (delayed .on).inbox.poll ClientFrame.decoder 0 =
      some (some (.failed (.invalidLength "x")), (delayed .on).inbox) := by cbv
  have hmet : Meets (delayed .on) (.failed (.invalidLength "x")) (delayed .cancelled) :=
    .watch 0 ⟨.block, .empty⟩ _ _ rfl hpoll
  have hon : OnTime 0 (delayed .on) := by
    intro call deadline request watch hp
    obtain ⟨-, hwork, -⟩ := Phase.work.inj hp
    obtain ⟨rfl, -⟩ := Work.delay.inj hwork
    decide
  have hstart : Paced (delayed .cancelled, .empty) 0 0 .empty (delayed .cancelled, .empty) := .start
  obtain ⟨h', hmore⟩ := exists_paced_of_schedule epoch 5 hstart
  have hgone : (run ⟨0, epoch⟩ 5 (delayed .cancelled, .empty)).1.outbox.gone = false := by
    decide +kernel
  have hfinished : (run ⟨0, epoch⟩ 5 (delayed .cancelled, .empty)).1.isFinished = true := by
    decide +kernel
  obtain ⟨hreader, hconnection, hpaced⟩ := malformed_frame_is_final
  obtain ⟨hcalls, -, hwrites⟩ := hconnection 1 true .empty h (delayed .on) (delayed .cancelled)
    .empty (.invalidLength "x") hrun.run (.inr hmet) h' _ hmore.run
  obtain ⟨hphase, -⟩ := (hwrites hgone).2.1 hfinished
  have hframes := hpaced 1 true .empty 0 0 0 h h' (delayed .on) (delayed .cancelled) .empty
    (.invalidLength "x") _ hrun (.inr hmet) hon hmore hgone hfinished
  refine ⟨h, h', delayed .on, delayed .cancelled, _, ⟨rfl, hrun, hon, hmet, hmore, hgone,
    hfinished⟩, ?_, hcalls, hphase, hframes⟩
  exact (hreader ClientFrame.decoder _ _ _ (.inr ⟨0, hpoll⟩) _ .refl).2.2

end EchoServer.Connection
