import EchoServer.Proofs.Connection.Serving

namespace EchoServer.Connection

open Wire (Inbox Received)

/-- Frames in groups: a call, messages, and the end of the call. `inside` says whether the first
frames belong to a group that has begun. -/
def InGroups (inside : Bool) : List ClientFrame → Prop
  | [] => inside = false
  | .call _ _ :: fs => inside = false ∧ InGroups true fs
  | .message _ :: fs => inside = true ∧ InGroups true fs
  | .halfClose :: fs => inside = true ∧ InGroups false fs
  | .cancel :: fs => inside = true ∧ InGroups false fs

/-- The frame of the call that was put aside. -/
def queuedFrames (queued : Option (String × Metadata)) : List ClientFrame :=
  queued.toList.map fun call => .call call.1 call.2

/-- Whether work waits for requests, now or when it has replied to the last one. -/
def Work.Listens : Work → Prop
  | .stream x => match x.handler with
    | .listen => True
    | .reply _ => True
    | _ => False
  | _ => False

/-- The frames ahead go with the phase: a call that still wants frames stands before the rest of
its group, and a watcher before the next group. -/
def Aligned (p : Phase) (queued : Option (String × Metadata)) (fs : List ClientFrame) : Prop :=
  match p with
  | .idle => ∃ inside, InGroups inside (queuedFrames queued ++ fs)
  | .close _ => ∃ inside, InGroups inside (queuedFrames queued ++ fs)
  | .gather _ _ => queued = none ∧ InGroups true fs
  | .collect _ _ => queued = none ∧ InGroups true fs
  | .work _ work .on => ¬ work.Listens ∧ queued = none ∧ InGroups false fs
  | .work _ work .off => (work.Listens → queued = none ∧ InGroups true fs) ∧
      ∃ inside, InGroups inside (queuedFrames queued ++ fs)
  | .work _ _ .cancelled => False
  | .finished _ => False

theorem InGroups.tail (f : ClientFrame) (fs : List ClientFrame) (inside : Bool)
    (h : InGroups inside (f :: fs)) : ∃ i, InGroups i fs := by
  cases f with
  | call path metadata => exact ⟨true, h.2⟩
  | message body => exact ⟨true, h.2⟩
  | halfClose => exact ⟨false, h.2⟩
  | cancel => exact ⟨false, h.2⟩

/-- A call that starts is followed by the rest of its group. -/
theorem aligned_startCall (path : String) (metadata : Metadata) (fs : List ClientFrame)
    (h : InGroups true fs) : Aligned (startCall path metadata) none fs := by
  have hany : ∃ inside, InGroups inside (queuedFrames none ++ fs) := ⟨true, h⟩
  unfold startCall
  split
  · exact hany
  · exact ⟨rfl, h⟩
  · exact ⟨fun _ => ⟨rfl, h⟩, hany⟩
  · exact ⟨rfl, h⟩

theorem aligned_onIdle (f : ClientFrame) (fs : List ClientFrame) (inside : Bool)
    (h : InGroups inside (f :: fs)) : Aligned (onIdle (.frame f)) none fs := by
  cases f with
  | call path metadata => exact aligned_startCall path metadata fs h.2
  | message body => exact ⟨true, h.2⟩
  | halfClose => exact ⟨false, h.2⟩
  | cancel => exact ⟨false, h.2⟩

theorem aligned_workOf (call : Call) (body : Json) (fs : List ClientFrame)
    (h : InGroups false fs) : Aligned (workOf call body) none fs := by
  unfold workOf
  split
  · exact ⟨id, rfl, h⟩
  · exact ⟨id, rfl, h⟩

theorem aligned_onGather (call : Call) (body : Option Json) (f : ClientFrame)
    (fs : List ClientFrame) (h : InGroups true (f :: fs)) :
    Aligned (onGather call body (.frame f)) none fs := by
  have htail : ∃ inside, InGroups inside (queuedFrames none ++ fs) := h.tail
  cases f with
  | call path metadata => exact htail
  | message b =>
    cases body with
    | none => exact ⟨rfl, h.2⟩
    | some _ => exact htail
  | halfClose =>
    cases body with
    | none => exact htail
    | some b => exact aligned_workOf call b fs h.2
  | cancel => exact htail

theorem aligned_onCollect (call : Call) (contents : List String) (f : ClientFrame)
    (fs : List ClientFrame) (h : InGroups true (f :: fs)) :
    Aligned (onCollect call contents (.frame f)) none fs := by
  have htail : ∃ inside, InGroups inside (queuedFrames none ++ fs) := h.tail
  unfold onCollect
  split
  · exact htail
  · rename_i item hitem
    split
    · rename_i contents' hok
      cases f with
      | message b => exact ⟨rfl, h.2⟩
      | halfClose => cases hitem
      | cancel =>
        rw [← Option.some.inj hitem] at hok
        cases hok
      | call path metadata =>
        rw [← Option.some.inj hitem] at hok
        cases hok
    · exact htail

theorem aligned_onListen (call : Call) (x : Stream) (f : ClientFrame) (fs : List ClientFrame)
    (h : InGroups true (f :: fs)) :
    Aligned (.work call (.stream { x with handler := onListen (.frame f) }) .off) none fs := by
  refine ⟨fun hl => ⟨rfl, ?_⟩, h.tail⟩
  cases f with
  | message b => exact h.2
  | _ => exact absurd hl id

/-- With encoded frames before it and a peer that stays, a reader gets the next of them. -/
theorem poll_ahead (i j : Inbox) (n : Nat) (got : Received ClientFrame) (future : List UInt8)
    (ahead : List (Json × ClientFrame)) (hclosed : i.closed = false)
    (hspelled : ∀ p ∈ ahead, Wire.Spelled ClientFrame.decoder p.1 p.2)
    (hbytes : i.buffer ++ i.arrived ++ future = ahead.flatMap fun p => Wire.encode p.1)
    (hpoll : i.poll ClientFrame.decoder n = some (some got, j)) :
    ∃ p rest, ahead = p :: rest ∧ got = .frame p.2 ∧ j.closed = false ∧
      j.buffer ++ j.arrived ++ future = rest.flatMap fun p => Wire.encode p.1 := by
  rw [List.append_assoc] at hbytes
  cases got with
  | frame f =>
    obtain ⟨k, tail, hp, rfl⟩ := (Wire.poll_eq_frame_iff _ _ _ _ _).mp hpoll
    have hall := Wire.parse_append_complete _ _ tail (i.arrived ++ future) f k hp
    rw [hbytes] at hall
    cases ahead with
    | nil => cases hall
    | cons p rest =>
      obtain ⟨hsmall, hread⟩ := hspelled p (by simp)
      rw [List.flatMap_cons, Wire.parse_encode _ p.1 p.2 _ hsmall hread] at hall
      obtain ⟨rfl, -, hrest⟩ := by simpa using hall
      exact ⟨p, rest, rfl, rfl, hclosed, by rw [hrest]; simp⟩
  | ended =>
    obtain ⟨-, -, -, hc⟩ := (Wire.poll_eq_ended_iff _ _ _ _).mp hpoll
    rw [hclosed] at hc
    cases hc
  | failed e =>
    obtain ⟨-, hp | ⟨-, -, hc, -⟩⟩ := (Wire.poll_eq_failed_iff _ _ _ _ _).mp hpoll
    · cases ahead with
      | nil =>
        rw [(List.append_eq_nil_iff.mp hbytes).1] at hp
        cases hp
      | cons p rest =>
        rw [List.flatMap_cons] at hbytes
        exact absurd hp (Wire.parse_front_ne_error _ p.1 p.2 _ _ _ e (hspelled p (by simp)) hbytes)
    · rw [hclosed] at hc
      cases hc

/-- A reader that finds nothing, when everything has come, has nothing before it. -/
theorem ahead_of_dry (i : Inbox) (ahead : List (Json × ClientFrame)) (hdry : Dry i)
    (hspelled : ∀ p ∈ ahead, Wire.Spelled ClientFrame.decoder p.1 p.2)
    (hbytes : i.buffer ++ i.arrived = ahead.flatMap fun p => Wire.encode p.1) : ahead = [] := by
  obtain ⟨hp, ha, -⟩ := hdry
  cases ahead with
  | nil => rfl
  | cons p rest =>
    obtain ⟨hsmall, hread⟩ := hspelled p (by simp)
    rw [ha, List.append_nil, List.flatMap_cons] at hbytes
    rw [hbytes, Wire.parse_encode _ p.1 p.2 _ hsmall hread] at hp
    cases hp

/-- A connection on its way through frames, of which `ahead` are still to be taken: what it sent,
and what serving the rest would send, are what serving all of them sends. -/
structure Serving (all : List ClientFrame) (future : List UInt8) (gs : List Reading) (s : State)
    (ahead : List (Json × ClientFrame)) : Prop where
  closed : s.inbox.closed = false
  gone : s.outbox.gone = false
  forwarding : ∀ call x watch, s.phase = .work call (.stream x) watch → x.forwarding = true
  resting : ¬ s.phase.Writes → s.outbox.current = none
  spelled : ∀ p ∈ ahead, Wire.Spelled ClientFrame.decoder p.1 p.2
  bytes : s.inbox.buffer ++ s.inbox.arrived ++ future = ahead.flatMap fun p => Wire.encode p.1
  aligned : Aligned s.phase s.queued (ahead.map (·.2))
  serves : ∀ more, serve .idle all (gs ++ more) =
    (serve s.phase (queuedFrames s.queued ++ ahead.map (·.2)) more).map (Served.after s.sent)

section
variable {all : List ClientFrame} {future : List UInt8} {gs : List Reading} {s : State}
  {ahead : List (Json × ClientFrame)}

/-- A move that takes no frame. -/
theorem serving_inner (t : State) (used : List Reading) (out : List ServerFrame)
    (h : Serving all future gs s ahead) (hin : t.inbox = s.inbox) (hq : t.queued = s.queued)
    (hgone : t.outbox.gone = s.outbox.gone) (hsent : t.sent = s.sent ++ out)
    (hforward : ∀ call x watch, t.phase = .work call (.stream x) watch → x.forwarding = true)
    (hresting : ¬ t.phase.Writes → t.outbox.current = none)
    (haligned : Aligned t.phase s.queued (ahead.map (·.2)))
    (hflush : ∀ more, s.phase.flush (used ++ more) = (t.phase.flush more).map (Served.after out)) :
    Serving all future (gs ++ used) t ahead where
  closed := by rw [hin, h.closed]
  gone := by rw [hgone, h.gone]
  forwarding := hforward
  resting := hresting
  spelled := h.spelled
  bytes := by rw [hin, h.bytes]
  aligned := by rw [hq]; exact haligned
  serves := fun more => by
    rw [List.append_assoc, h.serves, serve_after _ _ out _ _ (hflush more), Option.map_map, hq,
      hsent]
    congr 1
    funext v
    exact Served.after_after _ _ v

/-- A move that takes the next frame. -/
theorem serving_frame (t : State) (p : Json × ClientFrame) (rest : List (Json × ClientFrame))
    (h : Serving all future gs s (p :: rest)) (hclosed : t.inbox.closed = false)
    (hbytes : t.inbox.buffer ++ t.inbox.arrived ++ future = rest.flatMap fun p => Wire.encode p.1)
    (hout : t.outbox = s.outbox)
    (hforward : ∀ call x watch, t.phase = .work call (.stream x) watch → x.forwarding = true)
    (hresting : ¬ t.phase.Writes → t.outbox.current = none)
    (haligned : Aligned t.phase t.queued (rest.map (·.2)))
    (hserve : ∀ more, serve s.phase (queuedFrames s.queued ++ p.2 :: rest.map (·.2)) more =
      serve t.phase (queuedFrames t.queued ++ rest.map (·.2)) more) :
    Serving all future gs t rest where
  closed := hclosed
  gone := by rw [hout, h.gone]
  forwarding := hforward
  resting := hresting
  spelled := fun q hm => h.spelled q (by simp [hm])
  bytes := hbytes
  aligned := haligned
  serves := fun more => by
    rw [h.serves, List.map_cons, hserve, show t.sent = s.sent by simp [State.sent, hout]]

/-- The streams of a phase are forwarded. -/
def Phase.Forwards (p : Phase) : Prop :=
  ∀ call x watch, p = .work call (.stream x) watch → x.forwarding = true

theorem forwards_startCall (path : String) (metadata : Metadata) :
    (startCall path metadata).Forwards := by
  intro call x watch hp
  unfold startCall at hp
  split at hp
  · cases hp
  · cases hp
  · cases hp
    rfl
  · cases hp

theorem forwards_onIdle (f : ClientFrame) : (onIdle (.frame f)).Forwards := by
  cases f with
  | call path metadata => exact forwards_startCall path metadata
  | _ => exact fun call x watch hp => by cases hp

theorem forwards_onGather (call : Call) (body : Option Json) (f : ClientFrame) :
    (onGather call body (.frame f)).Forwards := by
  intro call' x watch hp
  cases f with
  | call path metadata => cases hp
  | message b => cases body <;> cases hp
  | halfClose =>
    cases body with
    | none => cases hp
    | some b =>
      simp only [onGather, workOf] at hp
      split at hp
      · cases hp
        rfl
      · cases hp
  | cancel => cases hp

theorem forwards_onCollect (call : Call) (contents : List String) (got : Received ClientFrame) :
    (onCollect call contents got).Forwards := by
  intro call' x watch hp
  unfold onCollect at hp
  split at hp
  · cases hp
  · split at hp <;> cases hp

/-- The responses in the queue of a stream are sent before anything else. -/
theorem flush_stream (call : Call) (x : Stream) (watch : Watch) (gs : List Reading) :
    (Phase.work call (.stream x) watch).flush gs =
      ((Phase.work call (.stream ⟨x.handler, [], true⟩) .off).flush gs).map
        (Served.after (messages x.queue)) := by
  rcases hx : x.handler.flush with ⟨responses, _ | result⟩
  · simp [Phase.flush, hx, messages, Served.after]
  · simp [Phase.flush, hx, messages, Served.after]

theorem serve_listen (call : Call) (x : Stream) (watch : Watch) (f : ClientFrame)
    (fs : List ClientFrame) (gs : List Reading) (hx : x.handler = .listen) :
    serve (.work call (.stream x) watch) (f :: fs) gs =
      serve (.work call (.stream { x with handler := onListen (.frame f) }) watch) fs gs := by
  have hflush : (Phase.work call (.stream x) watch).flush gs =
      some ⟨messages x.queue, listening call, gs⟩ := by
    simp [Phase.flush, hx, Handler.flush]
  rw [serve, hflush, Option.bind_some]
  exact (serve_after _ _ _ gs gs
    (flush_stream call { x with handler := onListen (.frame f) } watch gs) fs).symm

/-- A phase that needs a frame takes the next one, with nothing put aside and nothing half
written. -/
theorem serving_onFrame (p : Json × ClientFrame) (rest : List (Json × ClientFrame))
    (inbox : Inbox) (next : Phase) (h : Serving all future gs s (p :: rest))
    (hclosed : inbox.closed = false)
    (hbytes : inbox.buffer ++ inbox.arrived ++ future = rest.flatMap fun p => Wire.encode p.1)
    (hnone : s.queued = none) (hcur : s.outbox.current = none)
    (hflush : ∀ more, s.phase.flush more = some ⟨[], s.phase, more⟩)
    (hnext : s.phase.onFrame p.2 = next) (hforward : next.Forwards)
    (haligned : Aligned next none (rest.map (·.2))) :
    Serving all future gs { s with inbox, phase := next } rest := by
  refine serving_frame _ p rest h hclosed hbytes rfl hforward (fun _ => hcur) ?_ ?_
  · show Aligned next s.queued _
    rw [hnone]
    exact haligned
  · intro more
    rw [hnone, ← hnext]
    exact serve_cons s.phase p.2 _ more (hflush more)

theorem serving_read (n : Nat) (k : Received ClientFrame → Phase) (got : Received ClientFrame)
    (inbox : Inbox) (hk : s.reads? = some k)
    (hpoll : s.inbox.poll ClientFrame.decoder n = some (some got, inbox))
    (h : Serving all future gs s ahead) :
    ∃ rest, Serving all future gs { s with inbox, phase := k got } rest := by
  obtain ⟨p, rest, rfl, rfl, hclosed, hbytes⟩ :=
    poll_ahead _ _ n got future ahead h.closed h.spelled h.bytes hpoll
  have haligned := h.aligned
  refine ⟨rest, ?_⟩
  unfold State.reads? at hk
  split at hk
  · rename_i hp
    split at hk
    · rename_i hq
      obtain rfl := Option.some.inj hk
      have hnone : s.queued = none := by simpa using hq
      have hcur : s.outbox.current = none := h.resting (by simp [hp, Phase.Writes])
      rw [hp, hnone] at haligned
      obtain ⟨inside, hgroups⟩ := haligned
      apply serving_onFrame p rest inbox _ h hclosed hbytes hnone hcur
      · intro more
        rw [hp]
        rfl
      · rw [hp]
        rfl
      · exact forwards_onIdle p.2
      · exact aligned_onIdle p.2 _ inside hgroups
    · cases hk
  · rename_i call body hp
    obtain rfl := Option.some.inj hk
    have hcur : s.outbox.current = none := h.resting (by simp [hp, Phase.Writes])
    rw [hp] at haligned
    obtain ⟨hnone, hgroups⟩ := haligned
    apply serving_onFrame p rest inbox _ h hclosed hbytes hnone hcur
    · intro more
      rw [hp]
      rfl
    · rw [hp]
      rfl
    · exact forwards_onGather call body p.2
    · exact aligned_onGather call body p.2 _ hgroups
  · rename_i call contents hp
    obtain rfl := Option.some.inj hk
    have hcur : s.outbox.current = none := h.resting (by simp [hp, Phase.Writes])
    rw [hp] at haligned
    obtain ⟨hnone, hgroups⟩ := haligned
    apply serving_onFrame p rest inbox _ h hclosed hbytes hnone hcur
    · intro more
      rw [hp]
      rfl
    · rw [hp]
      rfl
    · exact forwards_onCollect call contents _
    · exact aligned_onCollect call contents p.2 _ hgroups
  · rename_i call x watch hp
    split at hk
    · rename_i hx
      obtain rfl := Option.some.inj hk
      have hlistens : (Work.stream x).Listens := by simp [Work.Listens, hx]
      rw [hp] at haligned
      cases watch with
      | on => exact absurd hlistens haligned.1
      | cancelled => exact absurd haligned id
      | off =>
        -- responses may still be queued here, so the phase has something to run before the frame
        obtain ⟨hnone, hgroups⟩ := haligned.1 hlistens
        refine serving_frame _ p rest h hclosed hbytes rfl ?_ (fun hw => absurd trivial hw) ?_ ?_
        · intro call' y watch' hy
          cases hy
          exact h.forwarding call x .off hp
        · show Aligned _ s.queued _
          rw [hnone]
          exact aligned_onListen call x p.2 _ hgroups
        · intro more
          rw [hp, hnone]
          exact serve_listen call x .off p.2 _ more hx
    · cases hk
  · cases hk

/-- Whatever a watcher does, the work comes to the same. -/
theorem flush_watch (call : Call) (work : Work) (watch watch' : Watch) (gs : List Reading) :
    (Phase.work call work watch).flush gs = (Phase.work call work watch').flush gs := by
  cases work <;> rfl

/-- The watcher of a running call meets nothing but the next call, which it puts aside. -/
theorem serving_watch (n : Nat) (call : Call) (work : Work) (got : Received ClientFrame)
    (inbox : Inbox) (hp : s.phase = .work call work .on)
    (hpoll : s.inbox.poll ClientFrame.decoder n = some (some got, inbox))
    (h : Serving all future gs s ahead) :
    ∃ rest, Serving all future gs { s with inbox, queued := (onWatch got).2.or s.queued,
                                           phase := .work call work (onWatch got).1 } rest := by
  obtain ⟨⟨v, f⟩, rest, rfl, rfl, hclosed, hbytes⟩ :=
    poll_ahead _ _ n got future ahead h.closed h.spelled h.bytes hpoll
  have haligned := h.aligned
  rw [hp] at haligned
  obtain ⟨hquiet, hnone, hgroups⟩ := haligned
  cases f with
  | call path metadata =>
    refine ⟨rest, serving_frame _ _ rest h hclosed hbytes rfl ?_ ?_ ?_ ?_⟩
    · intro call' x watch hx
      cases hx
      exact h.forwarding call x .on hp
    · intro hw
      refine h.resting fun hw' => hw ?_
      rw [hp] at hw'
      cases work <;> exact hw'
    · exact ⟨fun hl => absurd hl hquiet, false, hgroups⟩
    · intro more
      rw [hp, hnone]
      have hflush (gs' : List Reading) := flush_watch call work .on .off gs'
      exact (serve_after _ _ [] more more (by rw [map_after_nil]; exact hflush more) _).trans
        (map_after_nil _)
  -- the group of the running call is behind, so only a call can stand here
  | message body => cases hgroups.1
  | halfClose => cases hgroups.1
  | cancel => cases hgroups.1

/-- Work that listens no more than before stays in step with the frames ahead. -/
theorem aligned_work (call : Call) (work work' : Work) (watch : Watch)
    (queued : Option (String × Metadata)) (fs : List ClientFrame)
    (hl : work'.Listens → work.Listens) (h : Aligned (.work call work watch) queued fs) :
    Aligned (.work call work' watch) queued fs := by
  cases watch with
  | on => exact ⟨fun hw => h.1 (hl hw), h.2⟩
  | off => exact ⟨fun hw => h.1 (hl hw), h.2⟩
  | cancelled => exact h

theorem inGroups_of_work (call : Call) (work : Work) (watch : Watch)
    (queued : Option (String × Metadata)) (fs : List ClientFrame)
    (h : Aligned (.work call work watch) queued fs) :
    ∃ inside, InGroups inside (queuedFrames queued ++ fs) := by
  cases watch with
  | on =>
    obtain ⟨-, rfl, hgroups⟩ := h
    exact ⟨false, hgroups⟩
  | off => exact h.2
  | cancelled => exact absurd h id

/-- A handler that sends a response has sent it to the end of the queue. -/
theorem flush_of_sends (handler next : Handler) (y : EchoResponse)
    (h : handler.sends? = some (y, next)) :
    handler.flush = (y :: next.flush.1, next.flush.2) := by
  unfold Handler.sends? at h
  split at h
  · obtain ⟨rfl, rfl⟩ := by simpa using h
    rfl
  · obtain ⟨rfl, rfl⟩ := by simpa using h
    rfl
  · cases h

theorem listens_of_sends (x : Stream) (next : Handler) (y : EchoResponse)
    (queue : List EchoResponse)
    (h : x.handler.sends? = some (y, next))
    (hl : (Work.stream { x with handler := next, queue := queue }).Listens) :
    (Work.stream x).Listens := by
  unfold Handler.sends? at h
  split at h
  · obtain ⟨rfl, rfl⟩ := by simpa using h
    exact absurd hl id
  · rename_i hx
    simp [Work.Listens, hx]
  · cases h

theorem serving_push (outbox : Outbox) (h : Serving all future gs s ahead) (hw : s.phase.Writes)
    (hgone : outbox.gone = s.outbox.gone) (hsent : { s with outbox }.sent = s.sent) :
    Serving all future (gs ++ []) { s with outbox } ahead :=
  serving_inner _ [] [] h rfl rfl hgone (by rw [hsent, List.append_nil]) h.forwarding
    (fun hno => absurd hw hno) h.aligned (fun more => (map_after_nil _).symm)

/-- A stream goes on, with the responses `out` begun to be written. -/
theorem serving_stream (t : State) (call : Call) (x y : Stream) (watch : Watch)
    (out : List ServerFrame) (h : Serving all future gs s ahead)
    (hp : s.phase = .work call (.stream x) watch) (ht : t.phase = .work call (.stream y) watch)
    (hin : t.inbox = s.inbox) (hq : t.queued = s.queued) (hgone : t.outbox.gone = s.outbox.gone)
    (hsent : t.sent = s.sent ++ out) (hf : y.forwarding = x.forwarding)
    (hl : (Work.stream y).Listens → (Work.stream x).Listens)
    (hflush : ∀ more, (Phase.work call (.stream x) watch).flush more =
      ((Phase.work call (.stream y) watch).flush more).map (Served.after out)) :
    Serving all future (gs ++ []) t ahead := by
  refine serving_inner t [] out h hin hq hgone hsent ?_ ?_ ?_ ?_
  · intro call' z watch' hz
    rw [ht] at hz
    cases hz
    rw [hf]
    exact h.forwarding call x watch hp
  · intro hw
    exact absurd (by simp [ht, Phase.Writes]) hw
  · have haligned := h.aligned
    rw [hp] at haligned
    rw [ht]
    exact aligned_work call _ _ watch _ _ hl haligned
  · rw [hp, ht]
    exact hflush

/-- The work of a call has come to its last frames. -/
theorem serving_close (t : State) (call : Call) (work : Work) (watch : Watch) (used : List Reading)
    (frames : List ServerFrame) (h : Serving all future gs s ahead)
    (hp : s.phase = .work call work watch) (ht : t.phase = .close frames)
    (hin : t.inbox = s.inbox) (hq : t.queued = s.queued) (hout : t.outbox = s.outbox)
    (hflush : ∀ more, (Phase.work call work watch).flush (used ++ more) =
      some ⟨frames, .idle, more⟩) :
    Serving all future (gs ++ used) t ahead := by
  refine serving_inner t used [] h hin hq (by rw [hout]) (by simp [State.sent, hout]) ?_ ?_ ?_ ?_
  · intro call' x watch' hx
    rw [ht] at hx
    cases hx
  · intro hw
    exact absurd (by simp [ht, Phase.Writes]) hw
  · have haligned := h.aligned
    rw [hp] at haligned
    rw [ht]
    exact inGroups_of_work call work watch _ _ haligned
  · intro more
    rw [hp, ht, hflush, map_after_nil]
    rfl

end

/-- Every move keeps what is said. -/
theorem serving_step (all : List ClientFrame) (future : List UInt8) (gs : List Reading)
    (ahead : List (Json × ClientFrame)) (clock : Clock) (s t : State) (r r' : Registry)
    (hmove : Move clock (s, r) (t, r')) (h : Serving all future gs s ahead) :
    ∃ rest, Serving all future (gs ++ lookedAt clock r s t) t rest := by
  have hnil (hno : ∀ call body watch, s.phase ≠ .work call (.request body) watch) :
      lookedAt clock r s t = [] :=
    lookedAt_eq_nil clock r t fun call body watch hp => absurd hp (hno call body watch)
  have haligned := h.aligned
  -- only `read`, `takeUp` and `watch` take a frame, and only `answer` and `delay` a reading
  cases hmove with
  | fetch s r n hr hp ha hn =>
    have hlook : lookedAt clock r s { s with inbox := s.inbox.take n } = [] :=
      lookedAt_eq_nil clock r _ fun call body watch hp => ⟨call, body, watch, hp⟩
    rw [hlook, List.append_nil]
    exact ⟨ahead, { h with bytes := by simpa [Inbox.take] using h.bytes }⟩
  | read s r n k got inbox hk hpoll =>
    rw [hnil, List.append_nil]
    · exact serving_read n k got inbox hk hpoll h
    · intro call body watch hp
      simp [State.reads?, hp] at hk
  | takeUp s r path metadata hp hq =>
    rw [hnil (by simp [hp]), List.append_nil]
    rw [hp, hq] at haligned
    obtain ⟨inside, -, hgroups⟩ := haligned
    refine ⟨ahead, { h with forwarding := forwards_startCall path metadata, resting := ?_,
                            aligned := aligned_startCall path metadata _ hgroups, serves := ?_ }⟩
    · exact fun _ => h.resting (by simp [hp, Phase.Writes])
    · intro more
      rw [h.serves, hp, hq]
      exact congrArg (Option.map (Served.after s.sent))
        (serve_cons .idle (.call path metadata) _ more rfl)
  | watch s r n call work got inbox hp hpoll =>
    have hlook : lookedAt clock r s { s with inbox, queued := (onWatch got).2.or s.queued,
                                             phase := .work call work (onWatch got).1 } = [] := by
      refine lookedAt_eq_nil clock r _ fun call' body watch hreq =>
        ⟨call', body, (onWatch got).1, ?_⟩
      rw [hp] at hreq
      cases hreq
      rfl
    rw [hlook, List.append_nil]
    exact serving_watch n call work got inbox hp hpoll h
  | answer s r call body watch o r' hp hs =>
    have hlook : lookedAt clock r s { s with phase := finish (o.map some) } =
        [⟨clock.now, r⟩] := by
      simp [lookedAt, hp, finish]
    rw [hlook]
    refine ⟨ahead, serving_close _ call _ watch _ _ h hp rfl rfl rfl rfl fun more => ?_⟩
    simp [Phase.flush, answerAt, hs]
  | delay s r call body watch n request r' hp hs =>
    have hlook : lookedAt clock r s
        { s with phase := .work call (.delay (clock.elapsed + n) request) watch } =
        [⟨clock.now, r⟩] := by
      simp [lookedAt, hp]
    rw [hlook]
    refine ⟨ahead, serving_inner _ _ [] h rfl rfl rfl (by simp [State.sent]) ?_ ?_ ?_ ?_⟩
    · intro call' x watch' hx
      cases hx
    · exact fun _ => h.resting (by simp [hp, Phase.Writes])
    · rw [hp] at haligned
      exact aligned_work call _ _ watch _ _ (fun hl => absurd hl id) haligned
    · intro more
      rw [map_after_nil, hp]
      simp [Phase.flush, answerAt, hs]
  | cancel s r call deadline request hp =>
    -- a watcher that met a frame other than a call
    rw [hp] at haligned
    exact absurd haligned id
  | expire s r call deadline request watch hp hd =>
    rw [hnil (by simp [hp])]
    exact ⟨ahead, serving_close _ call _ watch _ _ h hp rfl rfl rfl rfl fun more => rfl⟩
  | expand s r call x body watch hp hx =>
    rw [hnil (by simp [hp])]
    refine ⟨ahead, serving_stream _ call x _ watch [] h hp rfl rfl rfl rfl (by simp [State.sent])
      rfl ?_ fun more => ?_⟩
    · unfold startExpand
      split <;> exact fun hl => absurd hl id
    · rw [map_after_nil]
      unfold startExpand Phase.flush
      cases hd : Service.decodeRequest EchoRequest.decoder body with
      | error status => simp [hx, Handler.flush, hd]
      | ok request => simp [hx, Handler.flush, hd]
  | sent s r call x verdict watch hp hx =>
    rw [hnil (by simp [hp])]
    refine ⟨ahead, serving_stream _ call x _ watch [] h hp rfl rfl rfl rfl (by simp [State.sent])
      rfl (fun hl => absurd hl id) fun more => ?_⟩
    simp [Phase.flush, hx, Handler.flush, Served.after]
  | send s r call x y next watch hp hx hf hroom =>
    rw [hnil (by simp [hp])]
    refine ⟨ahead, serving_stream _ call x _ watch [] h hp rfl rfl rfl rfl (by simp [State.sent])
      rfl (listens_of_sends x next y _ hx) fun more => ?_⟩
    rw [map_after_nil]
    simp only [Phase.flush, flush_of_sends _ next y hx]
    rcases next.flush with ⟨responses, _ | result⟩ <;> simp
  | refuse s r call x y next watch hp hx hf =>
    rw [h.forwarding call x watch hp] at hf
    cases hf
  | forward s r call x y rest watch hp hcur hf hq =>
    rw [hnil (by simp [hp])]
    refine ⟨ahead, serving_stream _ call x _ watch [.message (Service.responseBody y.toJson)] h hp
      rfl rfl rfl rfl ?_ rfl id fun more => ?_⟩
    · simp [State.sent, hcur, Outbox.begin, Outbox.written]
    · rw [flush_stream, flush_stream call { x with queue := rest }, Option.map_map, hq]
      rfl
  | endStream s r call x result watch hp hx hcur hf hq =>
    rw [hnil (by simp [hp])]
    refine ⟨ahead, serving_close _ call _ watch _ _ h hp rfl rfl rfl rfl fun more => ?_⟩
    simp [Phase.flush, hx, hq, Handler.flush, messages]
  | giveUp s r call x result watch hp hx hcur hf =>
    rw [h.forwarding call x watch hp] at hf
    cases hf
  | writePart s r f n outbox hw hcur hpush =>
    rw [hnil fun call body watch hp => by simp [hp, Phase.Writes] at hw]
    obtain ⟨m, -, rfl, -⟩ := push_part _ _ f n hpush
    exact ⟨ahead, serving_push _ h hw rfl (by simp [State.sent, Outbox.written, hcur])⟩
  | write s r f n outbox hw hcur hpush =>
    rw [hnil fun call body watch hp => by simp [hp, Phase.Writes] at hw]
    obtain ⟨hlog, hnone, hgone, -⟩ := push_complete _ _ f n hpush
    exact ⟨ahead, serving_push _ h hw hgone
      (by simp [State.sent, Outbox.written, hcur, hlog, hnone])⟩
  | failStream s r call x watch f n hp hcur hpush =>
    have hgone := h.gone
    rw [push_failed _ f n hpush] at hgone
    cases hgone
  | failLast s r frames f n hp hcur hpush =>
    have hgone := h.gone
    rw [push_failed _ f n hpush] at hgone
    cases hgone
  | beginLast s r f rest hp hcur =>
    rw [hnil (by simp [hp])]
    rw [hp] at haligned
    refine ⟨ahead, serving_inner _ [] [f] h rfl rfl rfl ?_ ?_ (fun hw => absurd trivial hw)
      haligned fun more => ?_⟩
    · simp [State.sent, hcur, Outbox.begin, Outbox.written]
    · intro call x watch hx
      cases hx
    · rw [hp]
      rfl
  | endLast s r hp hcur =>
    rw [hnil (by simp [hp])]
    rw [hp] at haligned
    refine ⟨ahead, serving_inner _ [] [] h rfl rfl rfl (by simp [State.sent]) ?_ (fun _ => hcur)
      haligned fun more => ?_⟩
    · intro call x watch hx
      cases hx
    · rw [hp]
      rfl

end EchoServer.Connection
