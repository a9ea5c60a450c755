import EchoServer.Connection.Step
import EchoServer.Proofs.Wire.Reading

/-! The moves of a connection one by one. Every step is a move, so what every move keeps, every step
keeps. -/
namespace EchoServer.Connection

open Wire (Inbox Received)

/-- What the main loop or the handler of a stream makes of the frame that it waits for, if it waits
for one. -/
def State.reads? (s : State) : Option (Received ClientFrame → Phase) :=
  match s.phase with
  | .idle => if s.queued.isNone then some onIdle else none
  | .gather call body => some (onGather call body)
  | .collect call contents => some (onCollect call contents)
  | .work call (.stream t) watch =>
    match t.handler with
    | .listen => some fun r => .work call (.stream { t with handler := onListen r }) watch
    | _ => none
  | _ => none

/-- The response that a handler has to send next, and what it does then. -/
def Handler.sends? : Handler → Option (EchoResponse × Handler)
  | .send (r :: rest) verdict => some (r, .send rest verdict)
  | .reply r => some (r, .listen)
  | _ => none

/-- Frames are written in this phase. -/
def Phase.Writes : Phase → Prop
  | .close _ => True
  | .work _ (.stream _) _ => True
  | _ => False

/-- Somebody waits for a frame. -/
def State.Reads (s : State) : Prop :=
  s.reads? ≠ none ∨ ∃ call work, s.phase = .work call work .on

/-- A move of a connection. -/
inductive Move (clock : Clock) : State × Registry → State × Registry → Prop
  /-- A reader takes more bytes into the buffer. -/
  | fetch (s r n) (hr : s.Reads)
      (hp : Wire.parse ClientFrame.decoder s.inbox.buffer = .ok .incomplete)
      (ha : s.inbox.arrived ≠ []) (hn : 0 < n) :
      Move clock (s, r) ({ s with inbox := s.inbox.take n }, r)
  | read (s r n k got inbox) (hk : s.reads? = some k)
      (hpoll : s.inbox.poll ClientFrame.decoder n = some (some got, inbox)) :
      Move clock (s, r) ({ s with inbox, phase := k got }, r)
  /-- The call that was put aside is taken up. -/
  | takeUp (s r path metadata) (hp : s.phase = .idle) (hq : s.queued = some (path, metadata)) :
      Move clock (s, r) ({ s with queued := none, phase := startCall path metadata }, r)
  | watch (s r n call work got inbox) (hp : s.phase = .work call work .on)
      (hpoll : s.inbox.poll ClientFrame.decoder n = some (some got, inbox)) :
      Move clock (s, r) ({ s with inbox, queued := (onWatch got).2.or s.queued,
                                  phase := .work call work (onWatch got).1 }, r)
  | answer (s r call body watch o r') (hp : s.phase = .work call (.request body) watch)
      (hs : Service.start call.method call.metadata body clock.now r = (.done o, r')) :
      Move clock (s, r) ({ s with phase := finish (o.map some) }, r')
  | delay (s r call body watch n request r') (hp : s.phase = .work call (.request body) watch)
      (hs : Service.start call.method call.metadata body clock.now r = (.delayed n request, r')) :
      Move clock (s, r)
        ({ s with phase := .work call (.delay (clock.elapsed + n) request) watch }, r')
  | cancel (s r call deadline request)
      (hp : s.phase = .work call (.delay deadline request) .cancelled) :
      Move clock (s, r) ({ s with phase := reject Service.cancelledInDelay }, r)
  | expire (s r call deadline request watch)
      (hp : s.phase = .work call (.delay deadline request) watch)
      (hd : deadline ≤ clock.elapsed) :
      Move clock (s, r)
        ({ s with phase := finish ((Service.blockOutcome call.metadata request).map some) }, r)
  | expand (s r call t body watch) (hp : s.phase = .work call (.stream t) watch)
      (ht : t.handler = .start body) :
      Move clock (s, r)
        ({ s with phase := .work call (.stream { t with handler := startExpand body }) watch }, r)
  /-- The handler has sent everything. -/
  | sent (s r call t verdict watch) (hp : s.phase = .work call (.stream t) watch)
      (ht : t.handler = .send [] verdict) :
      Move clock (s, r)
        ({ s with phase := .work call (.stream { t with handler := .done verdict }) watch }, r)
  /-- The handler puts a response into the queue. -/
  | send (s r call t x next watch) (hp : s.phase = .work call (.stream t) watch)
      (ht : t.handler.sends? = some (x, next)) (hf : t.forwarding = true)
      (hroom : t.queue.length < s.capacity) :
      Move clock (s, r)
        ({ s with phase := .work call
                    (.stream { t with handler := next, queue := t.queue ++ [x] }) watch }, r)
  /-- The handler finds out that nobody takes its responses. -/
  | refuse (s r call t x next watch) (hp : s.phase = .work call (.stream t) watch)
      (ht : t.handler.sends? = some (x, next)) (hf : t.forwarding = false) :
      Move clock (s, r)
        ({ s with phase := .work call
                    (.stream { t with handler := .done (.error Service.streamClosed) }) watch }, r)
  | forward (s r call t x rest watch) (hp : s.phase = .work call (.stream t) watch)
      (hc : s.outbox.current = none) (hf : t.forwarding = true) (hq : t.queue = x :: rest) :
      Move clock (s, r)
        ({ s with outbox := s.outbox.begin (.message (Service.responseBody x.toJson)),
                  phase := .work call (.stream { t with queue := rest }) watch }, r)
  | endStream (s r call t result watch) (hp : s.phase = .work call (.stream t) watch)
      (ht : t.handler = .done result) (hc : s.outbox.current = none) (hf : t.forwarding = true)
      (hq : t.queue = []) :
      Move clock (s, r) ({ s with phase := streamEnd call result }, r)
  | giveUp (s r call t result watch) (hp : s.phase = .work call (.stream t) watch)
      (ht : t.handler = .done result) (hc : s.outbox.current = none) (hf : t.forwarding = false) :
      Move clock (s, r) ({ s with phase := .finished (some .peerGone) }, r)
  /-- A part of the current frame is written. -/
  | writePart (s r f n outbox) (hw : s.phase.Writes) (hc : s.outbox.current = some (f, n))
      (hpush : s.outbox.push f n = some (.part outbox)) :
      Move clock (s, r) ({ s with outbox }, r)
  /-- The rest of the current frame is written. -/
  | write (s r f n outbox) (hw : s.phase.Writes) (hc : s.outbox.current = some (f, n))
      (hpush : s.outbox.push f n = some (.complete outbox)) :
      Move clock (s, r) ({ s with outbox }, r)
  | failStream (s r call t watch f n) (hp : s.phase = .work call (.stream t) watch)
      (hc : s.outbox.current = some (f, n)) (hpush : s.outbox.push f n = some .failed) :
      Move clock (s, r)
        ({ s with outbox := { s.outbox with current := none },
                  phase := .work call (.stream { t with forwarding := false }) watch }, r)
  | failLast (s r frames f n) (hp : s.phase = .close frames)
      (hc : s.outbox.current = some (f, n)) (hpush : s.outbox.push f n = some .failed) :
      Move clock (s, r) ({ s with phase := .finished (some .peerGone) }, r)
  | beginLast (s r f rest) (hp : s.phase = .close (f :: rest)) (hc : s.outbox.current = none) :
      Move clock (s, r) ({ s with outbox := s.outbox.begin f, phase := .close rest }, r)
  | endLast (s r) (hp : s.phase = .close []) (hc : s.outbox.current = none) :
      Move clock (s, r) ({ s with phase := .idle }, r)

variable {clock : Clock} {s t : State} {r : Registry} {b : State × Registry}

theorem move_of_fetch (n : Nat) (hr : s.Reads) (inbox : Inbox)
    (hpoll : s.inbox.poll ClientFrame.decoder n = some (none, inbox)) :
    Move clock (s, r) ({ s with inbox }, r) := by
  obtain ⟨hp, ha, rfl⟩ := (Wire.poll_eq_more_iff _ _ _ _).mp hpoll
  exact .fetch s r _ hr hp ha (by omega)

theorem State.Reads.of_reads? {k : Received ClientFrame → Phase} (hk : s.reads? = some k) :
    s.Reads := Or.inl (by simp [hk])

theorem move_of_readInto (n : Nat) (k : Received ClientFrame → Phase)
    (hk : s.reads? = some k) (h : s.readInto n k = some t) : Move clock (s, r) (t, r) := by
  unfold State.readInto at h
  split at h
  · cases h
  · rename_i inbox hpoll
    obtain rfl := Option.some.inj h
    exact move_of_fetch n (.of_reads? hk) inbox hpoll
  · rename_i got inbox hpoll
    obtain rfl := Option.some.inj h
    exact .read s r n k got inbox hk hpoll

theorem move_of_writeLast (frames : List ServerFrame) (hp : s.phase = .close frames)
    (h : s.writeLast frames = some t) : Move clock (s, r) (t, r) := by
  have hw : s.phase.Writes := by simp [hp, Phase.Writes]
  unfold State.writeLast at h
  cases hc : s.outbox.current with
  | some current =>
    obtain ⟨f, n⟩ := current
    simp only [hc] at h
    cases hpush : s.outbox.push f n with
    | none => simp [hpush] at h
    | some pushed =>
      cases pushed with
      | failed =>
        obtain rfl : { s with phase := .finished (some .peerGone) } = t := by simpa [hpush] using h
        exact .failLast s r frames f n hp hc hpush
      | part outbox =>
        obtain rfl : { s with outbox } = t := by simpa [hpush] using h
        exact .writePart s r f n outbox hw hc hpush
      | complete outbox =>
        obtain rfl : { s with outbox } = t := by simpa [hpush] using h
        exact .write s r f n outbox hw hc hpush
  | none =>
    cases frames with
    | nil =>
      obtain rfl : { s with phase := .idle } = t := by simpa [hc] using h
      exact .endLast s r hp hc
    | cons f rest =>
      obtain rfl : { s with outbox := s.outbox.begin f, phase := .close rest } = t := by
        simpa [hc] using h
      exact .beginLast s r f rest hp hc

theorem move_of_main (chunk : Nat) (h : s.actMain chunk = some t) : Move clock (s, r) (t, r) := by
  unfold State.actMain at h
  cases hp : s.phase with
  | idle =>
    cases hq : s.queued with
    | some call =>
      obtain ⟨path, metadata⟩ := call
      obtain rfl : { s with queued := none, phase := startCall path metadata } = t := by
        simpa [hp, hq] using h
      exact .takeUp s r path metadata hp hq
    | none =>
      have hk : s.reads? = some onIdle := by simp [State.reads?, hp, hq]
      exact move_of_readInto chunk onIdle hk (by simpa [hp, hq] using h)
  | gather call body =>
    have hk : s.reads? = some (onGather call body) := by simp [State.reads?, hp]
    exact move_of_readInto chunk _ hk (by simpa [hp] using h)
  | collect call contents =>
    have hk : s.reads? = some (onCollect call contents) := by simp [State.reads?, hp]
    exact move_of_readInto chunk _ hk (by simpa [hp] using h)
  | close frames => exact move_of_writeLast frames hp (by simpa [hp] using h)
  | work call work watch => simp [hp] at h
  | finished failure => simp [hp] at h

theorem move_of_send (call : Call) (stream stream' : Stream) (watch : Watch) (x : EchoResponse)
    (next : Handler) (hp : s.phase = .work call (.stream stream) watch)
    (ht : stream.handler.sends? = some (x, next))
    (h : stream.send s.capacity x next = some stream') :
    Move clock (s, r) ({ s with phase := .work call (.stream stream') watch }, r) := by
  unfold Stream.send at h
  cases hf : stream.forwarding with
  | false =>
    obtain rfl : { stream with handler := .done (.error Service.streamClosed) } = stream' := by
      simpa [hf] using h
    exact .refuse s r call stream x next watch hp ht hf
  | true =>
    obtain ⟨hroom, rfl⟩ : stream.queue.length < s.capacity ∧
        { stream with handler := next, queue := stream.queue ++ [x] } = stream' := by
      simpa [hf] using h
    exact .send s r call stream x next watch hp ht hf hroom

theorem move_of_handler (chunk : Nat) (h : s.actHandler clock chunk r = some b) :
    Move clock (s, r) b := by
  unfold State.actHandler at h
  cases hp : s.phase with
  | work call work watch =>
    cases work with
    | request body =>
      simp only [hp] at h
      rcases hs : Service.start call.method call.metadata body clock.now r with ⟨a, r'⟩
      simp only [hs] at h
      cases a with
      | done o =>
        obtain rfl := Option.some.inj h
        exact .answer s r call body watch o r' hp hs
      | delayed n request =>
        obtain rfl := Option.some.inj h
        exact .delay s r call body watch n request r' hp hs
    | delay deadline request =>
      obtain ⟨rfl, rfl⟩ : watch = .cancelled ∧
          ({ s with phase := reject Service.cancelledInDelay }, r) = b := by simpa [hp] using h
      exact .cancel s r call deadline request hp
    | stream stream =>
      simp only [hp] at h
      cases ht : stream.handler with
      | start body =>
        simp only [ht] at h
        obtain rfl := Option.some.inj h
        exact .expand s r call stream body watch hp ht
      | send pending verdict =>
        cases pending with
        | nil =>
          simp only [ht] at h
          obtain rfl := Option.some.inj h
          exact .sent s r call stream verdict watch hp ht
        | cons x rest =>
          simp only [ht, Option.map_eq_some_iff] at h
          obtain ⟨stream', hsend, rfl⟩ := h
          exact move_of_send call stream stream' watch x (.send rest verdict) hp
            (by simp [ht, Handler.sends?]) hsend
      | reply x =>
        simp only [ht, Option.map_eq_some_iff] at h
        obtain ⟨stream', hsend, rfl⟩ := h
        exact move_of_send call stream stream' watch x .listen hp
          (by simp [ht, Handler.sends?]) hsend
      | listen =>
        have hk : s.reads? = some fun got =>
            .work call (.stream { stream with handler := onListen got }) watch := by
          simp [State.reads?, hp, ht]
        simp only [ht] at h
        split at h
        · cases h
        · rename_i inbox hpoll
          obtain rfl := Option.some.inj h
          rw [← hp]
          exact move_of_fetch chunk (.of_reads? hk) inbox hpoll
        · rename_i got inbox hpoll
          obtain rfl := Option.some.inj h
          exact .read s r chunk _ got inbox hk hpoll
      | done result => simp [ht] at h
  | idle => simp [hp] at h
  | gather call body => simp [hp] at h
  | collect call contents => simp [hp] at h
  | close frames => simp [hp] at h
  | finished failure => simp [hp] at h

theorem move_of_forwarder (h : s.actForwarder = some t) : Move clock (s, r) (t, r) := by
  unfold State.actForwarder at h
  split at h
  · rename_i call stream watch hp
    have hw : s.phase.Writes := by simp [hp, Phase.Writes]
    cases hc : s.outbox.current with
    | some current =>
      obtain ⟨f, n⟩ := current
      simp only [hc] at h
      cases hpush : s.outbox.push f n with
      | none => simp [hpush] at h
      | some pushed =>
        simp only [hpush] at h
        cases pushed with
        | failed =>
          obtain rfl := Option.some.inj h
          exact .failStream s r call stream watch f n hp hc hpush
        | part outbox =>
          obtain rfl := Option.some.inj h
          exact .writePart s r f n outbox hw hc hpush
        | complete outbox =>
          obtain rfl := Option.some.inj h
          exact .write s r f n outbox hw hc hpush
    | none =>
      simp only [hc] at h
      cases hf : stream.forwarding with
      | true =>
        cases hq : stream.queue with
        | cons x rest =>
          simp only [if_pos hf, hq] at h
          obtain rfl := Option.some.inj h
          exact .forward s r call stream x rest watch hp hc hf hq
        | nil =>
          simp only [if_pos hf, hq] at h
          split at h
          · rename_i result ht
            obtain rfl := Option.some.inj h
            exact .endStream s r call stream result watch hp ht hc hf hq
          · cases h
      | false =>
        simp only [hf, Bool.false_eq_true, if_false] at h
        split at h
        · rename_i result ht
          obtain rfl := Option.some.inj h
          exact .giveUp s r call stream result watch hp ht hc hf
        · cases h
  · cases h

theorem move_of_watcher (chunk : Nat) (h : s.actWatcher chunk = some t) :
    Move clock (s, r) (t, r) := by
  unfold State.actWatcher at h
  split at h
  · rename_i call work hp
    split at h
    · cases h
    · rename_i inbox hpoll
      obtain rfl := Option.some.inj h
      exact move_of_fetch chunk (Or.inr ⟨call, work, hp⟩) inbox hpoll
    · rename_i got inbox hpoll
      obtain rfl := Option.some.inj h
      exact .watch s r chunk call work got inbox hp hpoll
  · cases h

theorem move_of_timer (h : s.actTimer clock = some t) : Move clock (s, r) (t, r) := by
  unfold State.actTimer at h
  split at h
  · rename_i call deadline request watch hp
    obtain ⟨hd, rfl⟩ : deadline ≤ clock.elapsed ∧
        { s with phase := finish ((Service.blockOutcome call.metadata request).map some) } = t := by
      simpa using h
    exact .expire s r call deadline request watch hp hd
  · cases h

theorem isBroken_iff (s : State) :
    s.isBroken = true ↔ s.phase.isStream = true ∧ ¬ CanQueue s.capacity := by
  rw [State.isBroken, Bool.and_eq_true, Bool.not_eq_true', decide_eq_false_iff_not]

/-- Only a connection with a stream can have broken down. -/
theorem whole_of_phase {p : Phase} (hp : s.phase = p) (hno : p.isStream = false) :
    s.isBroken = false := by
  rw [State.isBroken, hp, hno, Bool.false_and]

theorem whole_of_canQueue (h : CanQueue s.capacity) : s.isBroken = false := by
  rw [Bool.eq_false_iff, Ne, isBroken_iff]
  exact fun hbroken => hbroken.2 h

/-- Nobody moves on a connection that has broken down. -/
theorem whole_of_act (who : Actor) (chunk : Nat) (h : act who chunk clock r s = some b) :
    s.isBroken = false := by
  unfold act at h
  rw [Option.ite_none_left_eq_some] at h
  exact Bool.eq_false_iff.mpr h.1

theorem move_of_act (who : Actor) (chunk : Nat) (h : act who chunk clock r s = some b) :
    Move clock (s, r) b := by
  unfold act at h
  rw [Option.ite_none_left_eq_some] at h
  replace h := h.2
  cases who with
  | main =>
    obtain ⟨t, ht, rfl⟩ := Option.map_eq_some_iff.mp h
    exact move_of_main chunk ht
  | handler => exact move_of_handler chunk h
  | forwarder =>
    obtain ⟨t, ht, rfl⟩ := Option.map_eq_some_iff.mp h
    exact move_of_forwarder ht
  | watcher =>
    obtain ⟨t, ht, rfl⟩ := Option.map_eq_some_iff.mp h
    exact move_of_watcher chunk ht
  | timer =>
    obtain ⟨t, ht, rfl⟩ := Option.map_eq_some_iff.mp h
    exact move_of_timer ht

section
variable (hwhole : s.isBroken = false)
include hwhole

/-- Where a frame is waited for, there is a party that takes what its reader finds. -/
theorem exists_reader (clock : Clock) (r : Registry) (k : Received ClientFrame → Phase)
    (hk : s.reads? = some k) :
    ∃ who, ∀ n, act who n clock r s = (s.inbox.poll ClientFrame.decoder n).map fun p =>
      ({ s with inbox := p.2, phase := p.1.elim s.phase k }, r) := by
  have hmain (n : Nat) (h : s.actMain n = s.readInto n k) :
      act .main n clock r s = (s.inbox.poll ClientFrame.decoder n).map fun p =>
        ({ s with inbox := p.2, phase := p.1.elim s.phase k }, r) := by
    simp only [act, hwhole, Bool.false_eq_true, if_false, h, State.readInto]
    rcases s.inbox.poll ClientFrame.decoder n with _ | ⟨_ | got, inbox⟩ <;> rfl
  unfold State.reads? at hk
  split at hk
  · rename_i hp
    obtain ⟨hq, rfl⟩ : s.queued = none ∧ onIdle = k := by simpa using hk
    exact ⟨.main, fun n => hmain n (by simp [State.actMain, hp, hq])⟩
  · rename_i hp
    obtain rfl := Option.some.inj hk
    exact ⟨.main, fun n => hmain n (by simp [State.actMain, hp])⟩
  · rename_i hp
    obtain rfl := Option.some.inj hk
    exact ⟨.main, fun n => hmain n (by simp [State.actMain, hp])⟩
  · rename_i hp
    split at hk
    · rename_i ht
      obtain rfl := Option.some.inj hk
      refine ⟨.handler, ?_⟩
      intro n
      simp only [act, hwhole, Bool.false_eq_true, if_false, State.actHandler, hp, ht]
      rcases s.inbox.poll ClientFrame.decoder n with _ | ⟨_ | got, inbox⟩
      · rfl
      · rw [← hp]
        rfl
      · rfl
    · cases hk
  · cases hk

theorem step_of_fetch (n : Nat) (hr : s.Reads)
    (hp : Wire.parse ClientFrame.decoder s.inbox.buffer = .ok .incomplete)
    (ha : s.inbox.arrived ≠ []) (hn : 0 < n) :
    Step clock (s, r) ({ s with inbox := s.inbox.take n }, r) := by
  have hpoll : s.inbox.poll ClientFrame.decoder n = some (none, s.inbox.take n) :=
    (Wire.poll_eq_more_iff _ _ _ _).mpr ⟨hp, ha, by rw [Nat.max_eq_left hn]⟩
  rcases hr with hk | ⟨call, work, hwork⟩
  · obtain ⟨k, hk⟩ := Option.ne_none_iff_exists'.mp hk
    obtain ⟨who, hwho⟩ := exists_reader hwhole clock r k hk
    exact ⟨who, n, by rw [hwho, hpoll]; rfl⟩
  · exact ⟨.watcher, n, by simp [act, hwhole, State.actWatcher, hwork, hpoll]⟩

theorem step_of_read (n : Nat) (k : Received ClientFrame → Phase) (got : Received ClientFrame)
    (inbox : Inbox) (hk : s.reads? = some k)
    (hpoll : s.inbox.poll ClientFrame.decoder n = some (some got, inbox)) :
    Step clock (s, r) ({ s with inbox, phase := k got }, r) := by
  obtain ⟨who, hwho⟩ := exists_reader hwhole clock r k hk
  exact ⟨who, n, by rw [hwho, hpoll]; rfl⟩

/-- A handler with a response to send moves if the response has somewhere to go. -/
theorem step_of_send (call : Call) (stream stream' : Stream) (watch : Watch) (x : EchoResponse)
    (next : Handler) (hp : s.phase = .work call (.stream stream) watch)
    (ht : stream.handler.sends? = some (x, next))
    (h : stream.send s.capacity x next = some stream') :
    Step clock (s, r) ({ s with phase := .work call (.stream stream') watch }, r) := by
  unfold Handler.sends? at ht
  split at ht
  · rename_i y rest verdict hh
    obtain ⟨rfl, rfl⟩ : y = x ∧ Handler.send rest verdict = next := by simpa using ht
    exact ⟨.handler, 0, by simp [act, hwhole, State.actHandler, hp, hh, h]⟩
  · rename_i y hh
    obtain ⟨rfl, rfl⟩ : y = x ∧ Handler.listen = next := by simpa using ht
    exact ⟨.handler, 0, by simp [act, hwhole, State.actHandler, hp, hh, h]⟩
  · cases ht

theorem step_of_push (f : ServerFrame) (n : Nat) (outbox : Outbox) (hw : s.phase.Writes)
    (hc : s.outbox.current = some (f, n))
    (hpush : s.outbox.push f n = some (.part outbox) ∨
      s.outbox.push f n = some (.complete outbox)) :
    Step clock (s, r) ({ s with outbox }, r) := by
  unfold Phase.Writes at hw
  split at hw
  · rename_i frames hp
    refine ⟨.main, 0, ?_⟩
    rcases hpush with hpush | hpush <;>
      simp [act, hwhole, State.actMain, hp, State.writeLast, hc, hpush]
  · rename_i call stream watch hp
    refine ⟨.forwarder, 0, ?_⟩
    rcases hpush with hpush | hpush <;> simp [act, hwhole, State.actForwarder, hp, hc, hpush]
  · exact absurd hw id

end

theorem Step.whole {a : State × Registry} (h : Step clock a b) : a.1.isBroken = false := by
  obtain ⟨who, chunk, hact⟩ := h
  exact whole_of_act who chunk hact

theorem Step.move {a : State × Registry} (h : Step clock a b) : Move clock a b := by
  obtain ⟨who, chunk, hact⟩ := h
  exact move_of_act who chunk hact

theorem Move.step {a : State × Registry} (h : Move clock a b) (hwhole : a.1.isBroken = false) :
    Step clock a b := by
  cases h with
  | fetch s r n hr hp ha hn => exact step_of_fetch hwhole n hr hp ha hn
  | read s r n k got inbox hk hpoll => exact step_of_read hwhole n k got inbox hk hpoll
  | takeUp s r path metadata hp hq =>
    exact ⟨.main, 0, by simp [act, hwhole, State.actMain, hp, hq]⟩
  | watch s r n call work got inbox hp hpoll =>
    exact ⟨.watcher, n, by simp [act, hwhole, State.actWatcher, hp, hpoll]⟩
  | answer s r call body watch o r' hp hs =>
    exact ⟨.handler, 0, by simp [act, hwhole, State.actHandler, hp, hs]⟩
  | delay s r call body watch n request r' hp hs =>
    exact ⟨.handler, 0, by simp [act, hwhole, State.actHandler, hp, hs]⟩
  | cancel s r call deadline request hp =>
    exact ⟨.handler, 0, by simp [act, hwhole, State.actHandler, hp]⟩
  | expire s r call deadline request watch hp hd =>
    exact ⟨.timer, 0, by simp [act, hwhole, State.actTimer, hp, hd]⟩
  | expand s r call t body watch hp ht =>
    exact ⟨.handler, 0, by simp [act, hwhole, State.actHandler, hp, ht]⟩
  | sent s r call t verdict watch hp ht =>
    exact ⟨.handler, 0, by simp [act, hwhole, State.actHandler, hp, ht]⟩
  | send s r call t x next watch hp ht hf hroom =>
    exact step_of_send hwhole call t _ watch x next hp ht (by simp [Stream.send, hf, hroom])
  | refuse s r call t x next watch hp ht hf =>
    exact step_of_send hwhole call t _ watch x next hp ht (by simp [Stream.send, hf])
  | forward s r call t x rest watch hp hc hf hq =>
    exact ⟨.forwarder, 0, by simp [act, hwhole, State.actForwarder, hp, hc, hf, hq]⟩
  | endStream s r call t result watch hp ht hc hf hq =>
    exact ⟨.forwarder, 0, by simp [act, hwhole, State.actForwarder, hp, hc, hf, hq, ht]⟩
  | giveUp s r call t result watch hp ht hc hf =>
    exact ⟨.forwarder, 0, by simp [act, hwhole, State.actForwarder, hp, hc, hf, ht]⟩
  | writePart s r f n outbox hw hc hpush =>
    exact step_of_push hwhole f n outbox hw hc (Or.inl hpush)
  | write s r f n outbox hw hc hpush =>
    exact step_of_push hwhole f n outbox hw hc (Or.inr hpush)
  | failStream s r call t watch f n hp hc hpush =>
    exact ⟨.forwarder, 0, by simp [act, hwhole, State.actForwarder, hp, hc, hpush]⟩
  | failLast s r frames f n hp hc hpush =>
    exact ⟨.main, 0, by simp [act, hwhole, State.actMain, hp, State.writeLast, hc, hpush]⟩
  | beginLast s r f rest hp hc =>
    exact ⟨.main, 0, by simp [act, hwhole, State.actMain, hp, State.writeLast, hc]⟩
  | endLast s r hp hc =>
    exact ⟨.main, 0, by simp [act, hwhole, State.actMain, hp, State.writeLast, hc]⟩

end EchoServer.Connection
