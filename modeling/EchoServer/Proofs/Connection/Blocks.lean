import EchoServer.Proofs.Connection.Rest
import EchoServer.Proofs.Service.Verdicts

/-! What a server writes is a sequence of blocks, one for each call that it takes up. `Orderly` says
how far the block of the current call has come, and every step keeps it. -/
namespace EchoServer.Connection

open Wire (Inbox Received)

/-- The frames that answer a call: some messages, and then the trailers. -/
structure Block where
  bodies : List Json
  status : Status
  trailers : Metadata

def Block.frames (b : Block) : List ServerFrame :=
  b.bodies.map .message ++ [.trailers b.status b.trailers]

/-- Whether the responses of a method come as a stream. -/
def streams (m : Method) : Bool := m = .expand || m = .chat

/-- Whether a call of a method has a single request. -/
def readsOne (m : Method) : Bool := m ≠ .collect && m ≠ .chat

/-- A block can answer a call at a path. A method with one response sends it exactly if the call
succeeds, and an unknown method sends nothing but its failure. -/
def Block.Fits (b : Block) (path : String) : Prop :=
  match Method.ofPath? path with
  | none => b.bodies = [] ∧ b.status = unknownMethod path
  | some m => streams m = false → b.bodies.length = if b.status.code = .ok then 1 else 0

/-- The frames are blocks that answer the calls, one for each, in the same order. -/
inductive Answers : List (String × Metadata) → List ServerFrame → Prop
  | nil : Answers [] []
  | snoc (calls : List (String × Metadata)) (frames : List ServerFrame) (call : String × Metadata)
      (block : Block) (h : Answers calls frames) (hfits : block.Fits call.1) :
      Answers (calls ++ [call]) (frames ++ block.frames)

/-- The frames answer all calls but the last one, `call`, and are part of a block for that one:
these messages, and not yet the trailers. -/
def Open (calls : List (String × Metadata)) (frames : List ServerFrame) (call : Call)
    (bodies : List Json) : Prop :=
  ∃ front path base, calls = front ++ [(path, call.metadata)] ∧
    Method.ofPath? path = some call.method ∧ Answers front base ∧
    frames = base ++ bodies.map .message

/-- The frames that were begun. -/
def State.sent (s : State) : List ServerFrame :=
  s.outbox.written ++ s.outbox.current.toList.map (·.1)

/-- The last call was given up while its single request was read. -/
def GivenUp (h : History) (s : State) : Prop :=
  ∃ call, h.cutOff = some call ∧ readsOne call.method = true ∧ Open h.calls s.sent call []

/-- How far the block of the current call has come. -/
def Orderly (h : History) (s : State) : Prop :=
  match s.phase with
  | .idle => s.outbox.current = none ∧
      (h.cutOff = none ∧ Answers h.calls s.sent ∨
        GivenUp h s ∧ s.queued = none ∧ s.inbox = ⟨[], [], true⟩)
  | .gather call _ => s.outbox.current = none ∧ s.queued = none ∧ h.cutOff = none ∧
      readsOne call.method = true ∧ Open h.calls s.sent call []
  | .collect call _ => s.outbox.current = none ∧ h.cutOff = none ∧ Open h.calls s.sent call []
  | .work call (.stream t) _ => h.cutOff = none ∧ t.forwarding = true ∧
      streams call.method = true ∧ ∃ bodies, Open h.calls s.sent call bodies ∧
      s.sent.length ≤ s.outbox.written.length + bodies.length
  | .work call _ _ => s.outbox.current = none ∧ h.cutOff = none ∧ Open h.calls s.sent call []
  | .close frames => h.cutOff = none ∧ ∃ front last base, ∃ block : Block,
      h.calls = front ++ [last] ∧ Answers front base ∧ block.Fits last.1 ∧
      s.sent ++ frames = base ++ block.frames ∧ base.length ≤ s.outbox.written.length
  | .finished _ => s.outbox.current = none ∧ (Answers h.calls s.sent ∨ GivenUp h s)

section
variable {h : History} {s : State}

theorem orderly_idle_iff (hp : s.phase = .idle) :
    Orderly h s ↔ s.outbox.current = none ∧ (h.cutOff = none ∧ Answers h.calls s.sent ∨
      GivenUp h s ∧ s.queued = none ∧ s.inbox = ⟨[], [], true⟩) := by
  simp only [Orderly, hp]

theorem orderly_gather_iff {call : Call} {body : Option Json} (hp : s.phase = .gather call body) :
    Orderly h s ↔ s.outbox.current = none ∧ s.queued = none ∧ h.cutOff = none ∧
      readsOne call.method = true ∧ Open h.calls s.sent call [] := by
  simp only [Orderly, hp]

theorem orderly_collect_iff {call : Call} {contents : List String}
    (hp : s.phase = .collect call contents) :
    Orderly h s ↔ s.outbox.current = none ∧ h.cutOff = none ∧ Open h.calls s.sent call [] := by
  simp only [Orderly, hp]

theorem orderly_stream_iff {call : Call} {x : Stream} {watch : Watch}
    (hp : s.phase = .work call (.stream x) watch) :
    Orderly h s ↔ h.cutOff = none ∧ x.forwarding = true ∧ streams call.method = true ∧
      ∃ bodies, Open h.calls s.sent call bodies ∧
        s.sent.length ≤ s.outbox.written.length + bodies.length := by
  simp only [Orderly, hp]

theorem orderly_work_iff {call : Call} {work : Work} {watch : Watch}
    (hp : s.phase = .work call work watch) (hw : ∀ x, work ≠ .stream x) :
    Orderly h s ↔ s.outbox.current = none ∧ h.cutOff = none ∧ Open h.calls s.sent call [] := by
  cases work with
  | stream x => exact absurd rfl (hw x)
  | _ => simp only [Orderly, hp]

theorem orderly_close_iff {frames : List ServerFrame} (hp : s.phase = .close frames) :
    Orderly h s ↔ h.cutOff = none ∧ ∃ front last base, ∃ block : Block,
      h.calls = front ++ [last] ∧ Answers front base ∧ block.Fits last.1 ∧
      s.sent ++ frames = base ++ block.frames ∧ base.length ≤ s.outbox.written.length := by
  simp only [Orderly, hp]

theorem orderly_finished_iff {failure : Option Wire.FrameError}
    (hp : s.phase = .finished failure) :
    Orderly h s ↔ s.outbox.current = none ∧ (Answers h.calls s.sent ∨ GivenUp h s) := by
  simp only [Orderly, hp]

end

/-- An outcome as a block: its body is the only message, if it has one. -/
def blockOf (bodies : List Json) (o : Outcome (Option Json)) : Block :=
  match o.result with
  | .ok body => ⟨bodies ++ body.toList, .ok, o.trailers⟩
  | .error s => ⟨bodies, s, o.trailers⟩

theorem blockOf_frames (bodies : List Json) (o : Outcome (Option Json)) :
    (blockOf bodies o).frames = bodies.map .message ++ lastFrames o := by
  obtain ⟨result, trailers⟩ := o
  cases result with
  | error s => rfl
  | ok body => cases body <;> simp [blockOf, Block.frames, lastFrames]

/-- An honest outcome with a body if it succeeds is a block for any method. -/
theorem blockOf_fits (path : String) (m : Method) (o : Outcome Json)
    (hm : Method.ofPath? path = some m) (ho : Honest o.result) :
    (blockOf [] (o.map some)).Fits path := by
  obtain ⟨result, trailers⟩ := o
  unfold Block.Fits
  rw [hm]
  intro _
  cases result with
  | ok body => rfl
  | error s =>
    have hs : s.code ≠ .ok := ho s rfl
    simp [blockOf, Outcome.map, Except.map, hs]

theorem fits_of_streams (path : String) (m : Method) (b : Block)
    (hm : Method.ofPath? path = some m) (hs : streams m = true) : b.Fits path := by
  unfold Block.Fits
  rw [hm]
  intro h
  rw [hs] at h
  cases h

section
variable {h : History} {s : State} {call : Call} {bodies : List Json}

/-- The end of a call whose block is complete with its last frames. -/
theorem orderly_finish (o : Outcome (Option Json)) (hp : s.phase = finish o)
    (hcut : h.cutOff = none) (hcur : s.outbox.current = none)
    (hopen : Open h.calls s.sent call bodies)
    (hfits : ∀ path, Method.ofPath? path = some call.method → (blockOf bodies o).Fits path) :
    Orderly h s := by
  obtain ⟨front, path, base, hcalls, hm, hbase, hsent⟩ := hopen
  refine (orderly_close_iff hp).mpr ⟨hcut, front, (path, call.metadata), base, blockOf bodies o,
    hcalls, hbase, hfits path hm, ?_, ?_⟩
  · rw [hsent, blockOf_frames, List.append_assoc]
  · have hwritten : s.sent = s.outbox.written := by simp [State.sent, hcur]
    rw [← hwritten, hsent, List.length_append]
    omega

theorem orderly_respond (o : Outcome Json) (hp : s.phase = finish (o.map some))
    (ho : Honest o.result) (hcut : h.cutOff = none) (hcur : s.outbox.current = none)
    (hopen : Open h.calls s.sent call []) : Orderly h s :=
  orderly_finish _ hp hcut hcur hopen fun path hm => blockOf_fits path _ o hm ho

theorem orderly_reject (status : Status) (hp : s.phase = reject status)
    (hstatus : status.code ≠ .ok) (hcut : h.cutOff = none) (hcur : s.outbox.current = none)
    (hopen : Open h.calls s.sent call []) : Orderly h s :=
  orderly_respond (.fail status) hp (honest_error status hstatus) hcut hcur hopen

/-- A call that is taken up behind answered calls. -/
theorem orderly_startCall (calls : List (String × Metadata)) (path : String) (metadata : Metadata)
    (hp : s.phase = startCall path metadata) (hcalls : h.calls = calls ++ [(path, metadata)])
    (hans : Answers calls s.sent) (hcut : h.cutOff = none) (hcur : s.outbox.current = none)
    (hq : s.queued = none) : Orderly h s := by
  have hopen (m : Method) (hm : Method.ofPath? path = some m) :
      Open h.calls s.sent ⟨m, metadata⟩ [] :=
    ⟨calls, path, s.sent, hcalls, hm, hans, by simp⟩
  unfold startCall at hp
  split at hp
  · rename_i hm
    refine (orderly_close_iff hp).mpr ⟨hcut, calls, (path, metadata), s.sent,
      ⟨[], unknownMethod path, .empty⟩, hcalls, hans, ?_, rfl, by simp [State.sent, hcur]⟩
    unfold Block.Fits
    rw [hm]
    exact ⟨rfl, rfl⟩
  · rename_i hm
    exact (orderly_collect_iff hp).mpr ⟨hcur, hcut, hopen _ hm⟩
  · rename_i hm
    exact (orderly_stream_iff hp).mpr ⟨hcut, rfl, rfl, [], hopen _ hm, by simp [State.sent, hcur]⟩
  · rename_i m hcollect hchat hm
    refine (orderly_gather_iff hp).mpr ⟨hcur, hq, hcut, ?_, hopen _ hm⟩
    have hne : m ≠ .collect ∧ m ≠ .chat := ⟨hcollect, hchat⟩
    simp [readsOne, hne]

theorem orderly_workOf (body : Json) (hp : s.phase = workOf call body) (hcut : h.cutOff = none)
    (hcur : s.outbox.current = none) (hopen : Open h.calls s.sent call []) : Orderly h s := by
  unfold workOf at hp
  split at hp
  · rename_i hexpand
    exact (orderly_stream_iff hp).mpr ⟨hcut, rfl, by simp [streams, hexpand], [], hopen,
      by simp [State.sent, hcur]⟩
  · exact (orderly_work_iff hp (by simp)).mpr ⟨hcur, hcut, hopen⟩

/-- The call that begins with a frame. -/
def callIn : Received ClientFrame → Option (String × Metadata)
  | .frame (.call path metadata) => some (path, metadata)
  | _ => none

theorem fromBuffer_of_poll (i j : Inbox) (n : Nat) (got : Received ClientFrame)
    (hpoll : i.poll ClientFrame.decoder n = some (some got, j)) :
    i.fromBuffer ClientFrame.decoder = some (got, j) ∨
      i.fromBuffer ClientFrame.decoder = none ∧ ∀ f, got ≠ .frame f := by
  cases got with
  | frame f =>
    obtain ⟨k, rest, hp, rfl⟩ := (Wire.poll_eq_frame_iff _ _ _ _ _).mp hpoll
    exact Or.inl (by simp [Inbox.fromBuffer, hp])
  | ended =>
    obtain ⟨rfl, hb, -, -⟩ := (Wire.poll_eq_ended_iff _ _ _ _).mp hpoll
    refine Or.inr ⟨?_, by simp⟩
    rw [Inbox.fromBuffer, hb]
    rfl
  | failed e =>
    obtain ⟨rfl, hp | ⟨hp, -⟩⟩ := (Wire.poll_eq_failed_iff _ _ _ _ _).mp hpoll
    · exact Or.inl (by simp [Inbox.fromBuffer, hp])
    · exact Or.inr ⟨by simp [Inbox.fromBuffer, hp], by simp⟩

/-- What is read does not depend on how many bytes would be taken if there were nothing to read. -/
theorem poll_any (i j : Inbox) (n m : Nat) (got : Received ClientFrame)
    (hpoll : i.poll ClientFrame.decoder n = some (some got, j)) :
    i.poll ClientFrame.decoder m = some (some got, j) := by
  cases got with
  | frame f =>
    exact (Wire.poll_eq_frame_iff _ _ _ _ _).mpr ((Wire.poll_eq_frame_iff _ _ _ _ _).mp hpoll)
  | ended => exact (Wire.poll_eq_ended_iff _ _ _ _).mpr ((Wire.poll_eq_ended_iff _ _ _ _).mp hpoll)
  | failed e =>
    exact (Wire.poll_eq_failed_iff _ _ _ _ _).mpr ((Wire.poll_eq_failed_iff _ _ _ _ _).mp hpoll)

theorem nextCall?_of_read (n : Nat) (got : Received ClientFrame) (inbox : Inbox)
    (hp : s.phase = .idle) (hq : s.queued = none)
    (hpoll : s.inbox.poll ClientFrame.decoder n = some (some got, inbox)) :
    s.nextCall? = callIn got := by
  unfold State.nextCall?
  rw [hp, hq]
  rcases fromBuffer_of_poll _ _ n got hpoll with hb | ⟨hb, hg⟩
  · rw [hb]
    cases got with
    | frame f => cases f <;> rfl
    | ended => rfl
    | failed e => rfl
  · rw [hb]
    cases got with
    | frame f => exact absurd rfl (hg f)
    | ended => rfl
    | failed e => rfl

theorem nextCall?_of_busy (hp : s.phase ≠ .idle) : s.nextCall? = none := by
  unfold State.nextCall?
  split
  · rename_i hidle
    exact absurd hidle hp
  · rfl

theorem callCutOff?_of_frame (n : Nat) (f : ClientFrame) (inbox : Inbox)
    (hpoll : s.inbox.poll ClientFrame.decoder n = some (some (.frame f), inbox)) :
    s.callCutOff? = none := by
  unfold State.callCutOff?
  rw [poll_any _ _ n 0 _ hpoll]
  split <;> rfl

theorem callCutOff?_of_more (hp : Wire.parse ClientFrame.decoder s.inbox.buffer = .ok .incomplete)
    (ha : s.inbox.arrived ≠ []) : s.callCutOff? = none := by
  have hpoll : s.inbox.poll ClientFrame.decoder 0 = some (none, s.inbox.take (max 0 1)) :=
    (Wire.poll_eq_more_iff _ _ _ _).mpr ⟨hp, ha, rfl⟩
  unfold State.callCutOff?
  rw [hpoll]
  split <;> rfl

/-- The failures that a stream of requests ends with are honest. -/
theorem honest_requestOf (got : Received ClientFrame) (item : Except Status EchoRequest)
    (h : requestOf got = some item) : Honest item := by
  cases got with
  | frame f =>
    cases f with
    | message body =>
      rw [← Option.some.inj h]
      exact Service.honest_decodeRequest _ body
    | halfClose => cases h
    | cancel =>
      rw [← Option.some.inj h]
      exact honest_error _ (by decide)
    | call path metadata =>
      rw [← Option.some.inj h]
      exact honest_error _ (by decide)
  | ended =>
    rw [← Option.some.inj h]
    exact honest_error _ (by decide)
  | failed e =>
    rw [← Option.some.inj h]
    exact honest_error _ (by simp [connectionFailed, Status.of])

theorem orderly_onIdle (t : State) (n : Nat) (got : Received ClientFrame) (clock : Clock)
    (r : Registry) (hp : s.phase = .idle) (hq : s.queued = none)
    (hpoll : s.inbox.poll ClientFrame.decoder n = some (some got, t.inbox))
    (ht : t.phase = onIdle got) (hout : t.outbox = s.outbox) (htq : t.queued = none)
    (ho : Orderly h s) : Orderly (h.step clock r s t) t := by
  obtain ⟨hcur, hcase⟩ := (orderly_idle_iff hp).mp ho
  have hsent : t.sent = s.sent := by simp [State.sent, hout]
  have hcurt : t.outbox.current = none := by rw [hout, hcur]
  have hnext := nextCall?_of_read n got t.inbox hp hq hpoll
  have hcut : (h.step clock r s t).cutOff = h.cutOff := by
    simp [History.step, State.callCutOff?, hp]
  have hcalls : (h.step clock r s t).calls = h.calls ++ (callIn got).toList := by
    simp [History.step, hnext]
  rcases hcase with ⟨hnone, hans⟩ | ⟨hgiven, -, hin⟩
  · have hkept (hno : callIn got = none) : Answers (h.step clock r s t).calls t.sent := by
      rw [hcalls, hsent, hno]
      simpa using hans
    cases got with
    | frame f =>
      cases f with
      | call path metadata =>
        exact orderly_startCall h.calls path metadata ht hcalls (hsent ▸ hans) (hcut.trans hnone)
          hcurt htq
      | _ => exact (orderly_idle_iff ht).mpr ⟨hcurt, Or.inl ⟨hcut.trans hnone, hkept rfl⟩⟩
    | ended => exact (orderly_finished_iff ht).mpr ⟨hcurt, Or.inl (hkept rfl)⟩
    | failed e => exact (orderly_finished_iff ht).mpr ⟨hcurt, Or.inl (hkept rfl)⟩
  -- a call was given up, so the stream is at its end and nothing but the end can be read
  · have hended : got = .ended := by
      have hpoll' : s.inbox.poll ClientFrame.decoder n = some (some .ended, s.inbox) :=
        (Wire.poll_eq_ended_iff _ _ _ _).mpr ⟨rfl, by simp [hin]⟩
      rw [hpoll] at hpoll'
      exact (Option.some.inj (Prod.mk.inj (Option.some.inj hpoll')).1)
    subst hended
    obtain ⟨call, hsome, hone, hopen⟩ := hgiven
    refine (orderly_finished_iff ht).mpr ⟨hcurt, Or.inr ⟨call, hcut.trans hsome, hone, ?_⟩⟩
    rw [hcalls, hsent]
    simpa [callIn] using hopen

theorem orderly_onGather (t : State) (n : Nat) (got : Received ClientFrame) (clock : Clock)
    (r : Registry) (call : Call) (body : Option Json) (hp : s.phase = .gather call body)
    (hpoll : s.inbox.poll ClientFrame.decoder n = some (some got, t.inbox))
    (ht : t.phase = onGather call body got) (hout : t.outbox = s.outbox)
    (hqt : t.queued = s.queued) (ho : Orderly h s) : Orderly (h.step clock r s t) t := by
  obtain ⟨hcur, hq, hnone, hone, hopen⟩ := (orderly_gather_iff hp).mp ho
  have hsent : t.sent = s.sent := by simp [State.sent, hout]
  have hcurt : t.outbox.current = none := by rw [hout, hcur]
  have hcalls : (h.step clock r s t).calls = h.calls := by
    simp [History.step, nextCall?_of_busy (s := s) (by simp [hp])]
  have hopent : Open (h.step clock r s t).calls t.sent call [] := by
    rw [hcalls, hsent]
    exact hopen
  -- no frame any more: this is where a call is given up, and the history takes note of it
  have hlost (hg : ∀ f, got ≠ .frame f) : (h.step clock r s t).cutOff = some call := by
    have hpoll0 := poll_any _ _ n 0 got hpoll
    cases got with
    | frame f => exact absurd rfl (hg f)
    | ended => simp [History.step, State.callCutOff?, hp, hpoll0]
    | failed e => simp [History.step, State.callCutOff?, hp, hpoll0]
  have hgiven (hg : ∀ f, got ≠ .frame f) : GivenUp (h.step clock r s t) t :=
    ⟨call, hlost hg, hone, hopent⟩
  cases got with
  | frame f =>
    have hcut : (h.step clock r s t).cutOff = none := by
      simp [History.step, callCutOff?_of_frame n f t.inbox hpoll, hnone]
    cases f with
    | message b =>
      cases body with
      | none =>
        exact (orderly_gather_iff ht).mpr ⟨hcurt, hqt.trans hq, hcut, hone, hopent⟩
      | some _ => exact orderly_reject secondRequest ht (by decide) hcut hcurt hopent
    | halfClose =>
      cases body with
      | none => exact orderly_reject noRequest ht (by decide) hcut hcurt hopent
      | some b => exact orderly_workOf b ht hcut hcurt hopent
    | cancel => exact orderly_reject cancelledByPeer ht (by decide) hcut hcurt hopent
    | call path metadata => exact orderly_reject callTooEarly ht (by decide) hcut hcurt hopent
  | ended =>
    obtain ⟨hin, hb, ha, hc⟩ := (Wire.poll_eq_ended_iff _ _ _ _).mp hpoll
    have hempty (i : Inbox) (hi : i.buffer = [] ∧ i.arrived = [] ∧ i.closed = true) :
        i = ⟨[], [], true⟩ := by
      obtain ⟨buffer, arrived, closed⟩ := i
      simpa using hi
    exact (orderly_idle_iff ht).mpr ⟨hcurt, Or.inr ⟨hgiven (by simp), hqt.trans hq,
      hin.trans (hempty _ ⟨hb, ha, hc⟩)⟩⟩
  | failed e =>
    exact (orderly_finished_iff ht).mpr ⟨hcurt, Or.inr (hgiven (by simp))⟩

theorem orderly_onCollect (t : State) (got : Received ClientFrame) (clock : Clock) (r : Registry)
    (call : Call) (contents : List String) (hp : s.phase = .collect call contents)
    (ht : t.phase = onCollect call contents got) (hout : t.outbox = s.outbox) (ho : Orderly h s) :
    Orderly (h.step clock r s t) t := by
  obtain ⟨hcur, hnone, hopen⟩ := (orderly_collect_iff hp).mp ho
  have hsent : t.sent = s.sent := by simp [State.sent, hout]
  have hcurt : t.outbox.current = none := by rw [hout, hcur]
  have hcut : (h.step clock r s t).cutOff = none := by
    simp [History.step, State.callCutOff?, hp, hnone]
  have hopent : Open (h.step clock r s t).calls t.sent call [] := by
    rw [show (h.step clock r s t).calls = h.calls by
      simp [History.step, nextCall?_of_busy (s := s) (by simp [hp])], hsent]
    exact hopen
  unfold onCollect at ht
  split at ht
  · exact orderly_respond (.of call.metadata (.ok _)) ht (honest_of _ _ (honest_ok _)) hcut hcurt
      hopent
  · rename_i item hitem
    have hstep := honest_bind item (Service.collectStep contents) (honest_requestOf got item hitem)
      (Service.honest_collectStep contents)
    split at ht
    · exact (orderly_collect_iff ht).mpr ⟨hcurt, hcut, hopent⟩
    · rename_i status hstatus
      exact orderly_reject status ht (hstep status hstatus) hcut hcurt hopent

/-- A stream of responses goes on, with the same frames begun. -/
theorem orderly_stream (t : State) (h' : History) (call : Call) (x y : Stream)
    (watch watch' : Watch) (hp : s.phase = .work call (.stream x) watch)
    (ht : t.phase = .work call (.stream y) watch') (hf : y.forwarding = x.forwarding)
    (hsent : t.sent = s.sent) (hwritten : s.outbox.written.length ≤ t.outbox.written.length)
    (hcalls : h'.calls = h.calls) (hcut : h'.cutOff = h.cutOff) (ho : Orderly h s) :
    Orderly h' t := by
  obtain ⟨hnone, hforward, hstreams, bodies, hopen, hlen⟩ := (orderly_stream_iff hp).mp ho
  refine (orderly_stream_iff ht).mpr ⟨hcut.trans hnone, hf.trans hforward, hstreams, bodies, ?_, ?_⟩
  · rw [hcalls, hsent]
    exact hopen
  · rw [hsent]
    omega

/-- Outside of the phases that take up and gather a call the history says nothing of calls. -/
theorem step_same (clock : Clock) (r : Registry) (t : State) (hn : s.nextCall? = none)
    (hc : s.callCutOff? = none) :
    (h.step clock r s t).calls = h.calls ∧ (h.step clock r s t).cutOff = h.cutOff := by
  simp [History.step, hn, hc]

theorem step_same_of_work (clock : Clock) (r : Registry) (t : State) (call : Call) (work : Work)
    (watch : Watch) (hp : s.phase = .work call work watch) :
    (h.step clock r s t).calls = h.calls ∧ (h.step clock r s t).cutOff = h.cutOff :=
  step_same clock r t (by simp [State.nextCall?, hp]) (by simp [State.callCutOff?, hp])

theorem step_same_of_close (clock : Clock) (r : Registry) (t : State) (frames : List ServerFrame)
    (hp : s.phase = .close frames) :
    (h.step clock r s t).calls = h.calls ∧ (h.step clock r s t).cutOff = h.cutOff :=
  step_same clock r t (by simp [State.nextCall?, hp]) (by simp [State.callCutOff?, hp])

/-- Work that is no stream ends with an honest outcome. -/
theorem orderly_answer (t : State) (h' : History) (call : Call) (work : Work) (watch : Watch)
    (o : Outcome Json) (hp : s.phase = .work call work watch) (hw : ∀ x, work ≠ .stream x)
    (ht : t.phase = finish (o.map some)) (hout : t.outbox = s.outbox)
    (hcalls : h'.calls = h.calls) (hcut : h'.cutOff = h.cutOff) (hhonest : Honest o.result)
    (ho : Orderly h s) : Orderly h' t := by
  obtain ⟨hcur, hnone, hopen⟩ := (orderly_work_iff hp hw).mp ho
  have hopent : Open h'.calls t.sent call [] := by
    rw [hcalls, show t.sent = s.sent by simp [State.sent, hout]]
    exact hopen
  exact orderly_respond o ht hhonest (hcut.trans hnone) (by rw [hout, hcur]) hopent

theorem orderly_work (t : State) (h' : History) (call : Call) (work work' : Work)
    (watch watch' : Watch) (hp : s.phase = .work call work watch) (hw : ∀ x, work ≠ .stream x)
    (ht : t.phase = .work call work' watch') (hw' : ∀ x, work' ≠ .stream x)
    (hout : t.outbox = s.outbox) (hcalls : h'.calls = h.calls) (hcut : h'.cutOff = h.cutOff)
    (ho : Orderly h s) : Orderly h' t := by
  obtain ⟨hcur, hnone, hopen⟩ := (orderly_work_iff hp hw).mp ho
  refine (orderly_work_iff ht hw').mpr ⟨by rw [hout, hcur], hcut.trans hnone, ?_⟩
  rw [hcalls, show t.sent = s.sent by simp [State.sent, hout]]
  exact hopen

/-- The last frames of a call are begun one by one. -/
theorem orderly_close (t : State) (h' : History) (frames rest : List ServerFrame)
    (hp : s.phase = .close frames) (ht : t.phase = .close rest)
    (hsent : t.sent ++ rest = s.sent ++ frames)
    (hwritten : s.outbox.written.length ≤ t.outbox.written.length) (hcalls : h'.calls = h.calls)
    (hcut : h'.cutOff = h.cutOff) (ho : Orderly h s) : Orderly h' t := by
  obtain ⟨hnone, front, last, base, block, heq, hans, hfits, hframes, hlen⟩ :=
    (orderly_close_iff hp).mp ho
  exact (orderly_close_iff ht).mpr ⟨hcut.trans hnone, front, last, base, block, hcalls.trans heq,
    hans, hfits, hsent.trans hframes, Nat.le_trans hlen hwritten⟩

/-- The order depends on the phase, on what was sent and on what the history says of calls, save
that a call that was given up has nothing behind it. -/
theorem orderly_congr (t : State) (h' : History) (hp : t.phase = s.phase)
    (hq : t.queued = s.queued) (hin : s.inbox = ⟨[], [], true⟩ → t.inbox = ⟨[], [], true⟩)
    (hout : t.outbox = s.outbox) (hcalls : h'.calls = h.calls) (hcut : h'.cutOff = h.cutOff)
    (ho : Orderly h s) : Orderly h' t := by
  have hsent : t.sent = s.sent := by simp [State.sent, hout]
  have hgiven (hg : GivenUp h s) : GivenUp h' t := by
    unfold GivenUp at hg ⊢
    rw [hcalls, hcut, hsent]
    exact hg
  cases hs : s.phase with
  | idle =>
    obtain ⟨hcur, hcase⟩ := (orderly_idle_iff hs).mp ho
    refine (orderly_idle_iff (hp.trans hs)).mpr ⟨by rw [hout, hcur], ?_⟩
    rw [hcalls, hcut, hsent, hq]
    exact hcase.imp id fun hlost => ⟨hgiven hlost.1, hlost.2.1, hin hlost.2.2⟩
  | finished failure =>
    obtain ⟨hcur, hcase⟩ := (orderly_finished_iff hs).mp ho
    refine (orderly_finished_iff (hp.trans hs)).mpr ⟨by rw [hout, hcur], ?_⟩
    rw [hcalls, hsent]
    exact hcase.imp id hgiven
  | gather call body =>
    refine (orderly_gather_iff (hp.trans hs)).mpr ?_
    rw [hout, hq, hcalls, hcut, hsent]
    exact (orderly_gather_iff hs).mp ho
  | collect call contents =>
    refine (orderly_collect_iff (hp.trans hs)).mpr ?_
    rw [hout, hcalls, hcut, hsent]
    exact (orderly_collect_iff hs).mp ho
  | work call work watch =>
    cases work with
    | stream x =>
      exact orderly_stream t h' call x x watch watch hs (hp.trans hs) rfl hsent
        (Nat.le_of_eq (by rw [hout])) hcalls hcut ho
    | _ =>
      exact orderly_work t h' call _ _ watch watch hs (by simp) (hp.trans hs) (by simp) hout hcalls
        hcut ho
  | close frames =>
    exact orderly_close t h' frames frames hs (hp.trans hs) (by rw [hsent])
      (Nat.le_of_eq (by rw [hout])) hcalls hcut ho

/-- Writing on keeps the order: the frames that were begun stay the same. -/
theorem orderly_push (h' : History) (outbox : Outbox) (hw : s.phase.Writes)
    (hsent : { s with outbox }.sent = s.sent)
    (hwritten : s.outbox.written.length ≤ outbox.written.length) (hcalls : h'.calls = h.calls)
    (hcut : h'.cutOff = h.cutOff) (ho : Orderly h s) : Orderly h' { s with outbox } := by
  unfold Phase.Writes at hw
  split at hw
  · rename_i frames hp
    exact orderly_close _ _ frames frames hp hp (by rw [hsent]) hwritten hcalls hcut ho
  · rename_i call x watch hp
    exact orderly_stream _ _ call x x watch watch hp hp rfl hsent hwritten hcalls hcut ho
  · exact absurd hw id

end

/-- Every move keeps the order, as long as writes succeed. -/
theorem orderly_step (h : History) (clock : Clock) (s t : State) (r r' : Registry)
    (hmove : Move clock (s, r) (t, r')) (hgone : s.outbox.gone = false) (ho : Orderly h s) :
    Orderly (h.step clock r s t) t := by
  have hwork (call : Call) (work : Work) (watch : Watch) (hp : s.phase = .work call work watch) :=
    step_same_of_work (h := h) clock r t call work watch hp
  have hclose (frames : List ServerFrame) (hp : s.phase = .close frames) :=
    step_same_of_close (h := h) clock r t frames hp
  have hwrites (hw : s.phase.Writes) : s.nextCall? = none ∧ s.callCutOff? = none := by
    unfold Phase.Writes at hw
    split at hw <;> simp_all [State.nextCall?, State.callCutOff?]
  -- calls are taken up in `read` and `takeUp` and given up in `read`, and the frames that were
  -- begun change in `forward` and `beginLast`; the other moves go from one phase to the next
  cases hmove with
  | fetch s r n hr hp ha hn =>
    have hnext : s.nextCall? = none := by
      unfold State.nextCall?
      split
      · rename_i hidle
        split
        · rename_i call hq
          rcases hr with hk | ⟨call', work, hbusy⟩
          · simp [State.reads?, hidle, hq] at hk
          · rw [hidle] at hbusy
            cases hbusy
        · simp [Inbox.fromBuffer, hp]
      · rfl
    obtain ⟨hcalls, hcut⟩ := step_same (h := h) clock r { s with inbox := s.inbox.take n } hnext
      (callCutOff?_of_more hp ha)
    exact orderly_congr (s := s) _ _ rfl rfl (fun hin => absurd (by simp [hin]) ha) rfl hcalls
      hcut ho
  | read s r n k got inbox hk hpoll =>
    unfold State.reads? at hk
    split at hk
    -- one case for each of the four places where frames are read
    · rename_i hp
      split at hk
      · rename_i hq
        obtain rfl := Option.some.inj hk
        have hnone : s.queued = none := by simpa using hq
        exact orderly_onIdle _ n got clock r hp hnone hpoll rfl rfl hnone ho
      · cases hk
    · rename_i call body hp
      obtain rfl := Option.some.inj hk
      exact orderly_onGather _ n got clock r call body hp hpoll rfl rfl rfl ho
    · rename_i call contents hp
      obtain rfl := Option.some.inj hk
      exact orderly_onCollect _ got clock r call contents hp rfl rfl ho
    · rename_i call x watch hp
      split at hk
      · rename_i hx
        obtain rfl := Option.some.inj hk
        obtain ⟨hcalls, hcut⟩ := hwork call _ watch hp
        exact orderly_stream _ _ call x _ watch watch hp rfl rfl rfl (Nat.le_refl _) hcalls hcut ho
      · cases hk
    · cases hk
  | takeUp s r path metadata hp hq =>
    obtain ⟨hcur, ⟨hnone, hans⟩ | ⟨-, hq', -⟩⟩ := (orderly_idle_iff hp).mp ho
    · have hnext : s.nextCall? = some (path, metadata) := by simp [State.nextCall?, hp, hq]
      exact orderly_startCall h.calls path metadata rfl (by simp [History.step, hnext]) hans
        (by simp [History.step, State.callCutOff?, hp, hnone]) hcur rfl
    · rw [hq] at hq'
      cases hq'
  | watch s r n call work got inbox hp hpoll =>
    obtain ⟨hcalls, hcut⟩ := hwork call work .on hp
    cases work with
    | stream x =>
      exact orderly_stream _ _ call x x .on _ hp rfl rfl rfl (Nat.le_refl _) hcalls hcut ho
    | _ => exact orderly_work _ _ call _ _ .on _ hp (by simp) rfl (by simp) rfl hcalls hcut ho
  | answer s r call body watch o r' hp hs =>
    obtain ⟨hcalls, hcut⟩ := hwork call _ watch hp
    exact orderly_answer _ _ call _ watch o hp (by simp) rfl rfl hcalls hcut
      (Service.honest_start _ _ body clock.now r o (by rw [hs])) ho
  | delay s r call body watch n request r' hp hs =>
    obtain ⟨hcalls, hcut⟩ := hwork call _ watch hp
    exact orderly_work _ _ call _ _ watch watch hp (by simp) rfl (by simp) rfl hcalls hcut ho
  | cancel s r call deadline request hp =>
    obtain ⟨hcalls, hcut⟩ := hwork call _ _ hp
    exact orderly_answer _ _ call _ _ (.fail Service.cancelledInDelay) hp (by simp) rfl rfl hcalls
      hcut (honest_error _ (by decide)) ho
  | expire s r call deadline request watch hp hd =>
    obtain ⟨hcalls, hcut⟩ := hwork call _ watch hp
    exact orderly_answer _ _ call _ watch _ hp (by simp) rfl rfl hcalls hcut
      (Service.honest_blockOutcome _ _) ho
  | expand s r call x body watch hp hx =>
    obtain ⟨hcalls, hcut⟩ := hwork call _ watch hp
    exact orderly_stream _ _ call x _ watch watch hp rfl rfl rfl (Nat.le_refl _) hcalls hcut ho
  | sent s r call x verdict watch hp hx =>
    obtain ⟨hcalls, hcut⟩ := hwork call _ watch hp
    exact orderly_stream _ _ call x _ watch watch hp rfl rfl rfl (Nat.le_refl _) hcalls hcut ho
  | send s r call x y next watch hp hx hf hroom =>
    obtain ⟨hcalls, hcut⟩ := hwork call _ watch hp
    exact orderly_stream _ _ call x _ watch watch hp rfl rfl rfl (Nat.le_refl _) hcalls hcut ho
  | refuse s r call x y next watch hp hx hf =>
    -- a stream is cut off only after a failed write
    obtain ⟨-, hforward, -⟩ := (orderly_stream_iff hp).mp ho
    rw [hf] at hforward
    cases hforward
  | forward s r call x y rest watch hp hcur hf hq =>
    obtain ⟨hcalls, hcut⟩ := hwork call _ watch hp
    obtain ⟨hnone, hforward, hstreams, bodies, ⟨front, path, base, heq, hm, hans, hsent⟩, hlen⟩ :=
      (orderly_stream_iff hp).mp ho
    have hwritten : s.outbox.log.reverse = base ++ bodies.map .message := by
      simpa [State.sent, hcur, Outbox.written] using hsent
    refine (orderly_stream_iff (x := { x with queue := rest }) rfl).mpr ⟨hcut.trans hnone, hforward,
      hstreams, bodies ++ [Service.responseBody y.toJson], ⟨front, path, base, hcalls.trans heq, hm,
      hans, ?_⟩, ?_⟩
    · simp [State.sent, Outbox.begin, Outbox.written, hwritten]
    · simp [State.sent, Outbox.begin, Outbox.written]
  | endStream s r call x result watch hp hx hcur hf hq =>
    obtain ⟨hcalls, hcut⟩ := hwork call _ watch hp
    obtain ⟨hnone, -, hstreams, bodies, hopen, -⟩ := (orderly_stream_iff hp).mp ho
    rw [← hcalls] at hopen
    exact orderly_finish _ rfl (hcut.trans hnone) hcur hopen
      fun path hm => fits_of_streams path _ _ hm hstreams
  | giveUp s r call x result watch hp hx hcur hf =>
    obtain ⟨-, hforward, -⟩ := (orderly_stream_iff hp).mp ho
    rw [hf] at hforward
    cases hforward
  | writePart s r f n outbox hw hcur hpush =>
    obtain ⟨hcalls, hcut⟩ := step_same (h := h) clock r { s with outbox } (hwrites hw).1
      (hwrites hw).2
    obtain ⟨m, -, rfl, -⟩ := push_part _ _ f n hpush
    refine orderly_push _ _ hw ?_ (Nat.le_refl _) hcalls hcut ho
    simp [State.sent, Outbox.written, hcur]
  | write s r f n outbox hw hcur hpush =>
    obtain ⟨hcalls, hcut⟩ := step_same (h := h) clock r { s with outbox } (hwrites hw).1
      (hwrites hw).2
    obtain ⟨hlog, hnone, -, -⟩ := push_complete _ _ f n hpush
    refine orderly_push _ _ hw ?_ ?_ hcalls hcut ho
    · simp [State.sent, Outbox.written, hcur, hlog, hnone]
    · simp [Outbox.written, hlog]
  | failStream s r call x watch f n hp hcur hpush =>
    rw [push_failed _ f n hpush] at hgone
    cases hgone
  | failLast s r frames f n hp hcur hpush =>
    rw [push_failed _ f n hpush] at hgone
    cases hgone
  | beginLast s r f rest hp hcur =>
    obtain ⟨hcalls, hcut⟩ := hclose _ hp
    refine orderly_close _ _ (f :: rest) rest hp rfl ?_ (Nat.le_refl _) hcalls hcut ho
    simp [State.sent, Outbox.begin, hcur, Outbox.written]
  | endLast s r hp hcur =>
    -- all frames of the block are begun and none is half written: the call is answered
    obtain ⟨hcalls, hcut⟩ := hclose _ hp
    obtain ⟨hnone, front, last, base, block, heq, hans, hfits, hframes, -⟩ :=
      (orderly_close_iff hp).mp ho
    refine (orderly_idle_iff rfl).mpr ⟨hcur, Or.inl ⟨hcut.trans hnone, ?_⟩⟩
    have hsent : s.sent = base ++ block.frames := by simpa using hframes
    rw [hcalls, heq]
    show Answers (front ++ [last]) s.sent
    rw [hsent]
    exact .snoc front base last block hans hfits

theorem orderly_run (capacity : Nat) (reads : Bool) (registry : Registry) (h : History)
    (a : State × Registry) (hrun : Run (State.init capacity reads, registry) h a)
    (hgone : a.1.outbox.gone = false) : Orderly h a.1 := by
  induction hrun with
  | start => exact (orderly_idle_iff rfl).mpr ⟨rfl, Or.inl ⟨rfl, .nil⟩⟩
  | step h s r t r' clock hrun hstep ih =>
    have hmove := hstep.move
    have hthere : s.outbox.gone = false := (peer_of_move hmove).2.symm.trans hgone
    exact orderly_step h clock s t r r' hmove hthere (ih hthere)
  | receive h s r bytes hrun hopen ih =>
    refine orderly_congr (s := s) _ _ rfl rfl (fun hin => ?_) rfl rfl rfl (ih hgone)
    rw [hin] at hopen
    cases hopen
  | close h s r hrun ih =>
    refine orderly_congr (s := s) _ _ rfl rfl (fun hin => ?_) rfl rfl rfl (ih hgone)
    show s.inbox.close = _
    rw [hin]
    rfl
  | drop h s r hrun ih => cases hgone
  | share h s r r' hrun ih => exact ih hgone

/-- Frames that were written for calls: whole blocks for the first of them, and then messages for
the next one, of which there is no more than one. -/
def InBlocks (calls : List (String × Metadata)) (written : List ServerFrame) : Prop :=
  ∃ front rest base, ∃ bodies : List Json, calls = front ++ rest ∧ rest.length ≤ 1 ∧
    Answers front base ∧ written = base ++ bodies.map .message ∧ (bodies ≠ [] → rest ≠ [])

theorem inBlocks_of_answers (calls : List (String × Metadata)) (written : List ServerFrame)
    (h : Answers calls written) : InBlocks calls written :=
  ⟨calls, [], written, [], by simp, by simp, h, by simp, by simp⟩

/-- A part of what begins with blocks and goes on with messages, which covers the blocks. -/
theorem inBlocks_of_take (front : List (String × Metadata)) (last : String × Metadata)
    (base written : List ServerFrame) (bodies : List Json) (n : Nat) (hans : Answers front base)
    (hn : base.length ≤ n) (hw : written = (base ++ bodies.map ServerFrame.message).take n) :
    InBlocks (front ++ [last]) written := by
  refine ⟨front, [last], base, bodies.take (n - base.length), rfl, Nat.le_refl 1, hans, ?_, by simp⟩
  rw [hw, List.take_append, List.take_of_length_le hn, List.map_take]

theorem take_sent (s : State) : s.sent.take s.outbox.written.length = s.outbox.written := by
  rw [State.sent, List.take_left]

theorem inBlocks_of_open (calls : List (String × Metadata)) (s : State) (call : Call)
    (bodies : List Json) (hopen : Open calls s.sent call bodies)
    (hlen : s.sent.length ≤ s.outbox.written.length + bodies.length) :
    InBlocks calls s.outbox.written := by
  obtain ⟨front, path, base, rfl, -, hans, hsent⟩ := hopen
  have hbase : base.length ≤ s.outbox.written.length := by
    rw [hsent, List.length_append, List.length_map] at hlen
    omega
  exact inBlocks_of_take front _ base _ bodies _ hans hbase (by rw [← hsent, take_sent])

theorem inBlocks_of_orderly (h : History) (s : State) (ho : Orderly h s) :
    InBlocks h.calls s.outbox.written := by
  have hidle (hcur : s.outbox.current = none) : s.sent = s.outbox.written := by
    simp [State.sent, hcur]
  have hopen (call : Call) (hcur : s.outbox.current = none) (ho : Open h.calls s.sent call []) :
      InBlocks h.calls s.outbox.written :=
    inBlocks_of_open h.calls s call [] ho (by rw [hidle hcur]; exact Nat.le_refl _)
  cases hp : s.phase with
  | idle =>
    obtain ⟨hcur, ⟨-, hans⟩ | ⟨⟨call, -, -, ho⟩, -⟩⟩ := (orderly_idle_iff hp).mp ho
    · exact inBlocks_of_answers _ _ (hidle hcur ▸ hans)
    · exact hopen call hcur ho
  | gather call body =>
    obtain ⟨hcur, -, -, -, ho⟩ := (orderly_gather_iff hp).mp ho
    exact hopen call hcur ho
  | collect call contents =>
    obtain ⟨hcur, -, ho⟩ := (orderly_collect_iff hp).mp ho
    exact hopen call hcur ho
  | work call work watch =>
    by_cases hw : ∃ x, work = .stream x
    · obtain ⟨x, rfl⟩ := hw
      obtain ⟨-, -, -, bodies, ho, hlen⟩ := (orderly_stream_iff hp).mp ho
      exact inBlocks_of_open h.calls s call bodies ho hlen
    · obtain ⟨hcur, -, ho⟩ := (orderly_work_iff hp fun x hx => hw ⟨x, hx⟩).mp ho
      exact hopen call hcur ho
  | close frames =>
    obtain ⟨-, front, last, base, block, heq, hans, hfits, hframes, hbase⟩ :=
      (orderly_close_iff hp).mp ho
    have htake : s.outbox.written =
        (base ++ block.frames).take s.outbox.written.length := by
      rw [← hframes, List.take_append_of_le_length (by simp [State.sent]), take_sent]
    rw [heq]
    -- a part of the block is messages only, for the trailers are its last frame
    by_cases hpart : s.outbox.written.length ≤ base.length + block.bodies.length
    · rw [Block.frames, ← List.append_assoc, List.take_append_of_le_length (by simpa using hpart)]
        at htake
      exact inBlocks_of_take front last base _ block.bodies _ hans hbase htake
    · refine inBlocks_of_answers _ _ ?_
      rw [htake, List.take_of_length_le (by simp [Block.frames]; omega)]
      exact .snoc front base last block hans hfits
  | finished failure =>
    obtain ⟨hcur, hans | ⟨call, -, -, ho⟩⟩ := (orderly_finished_iff hp).mp ho
    · exact inBlocks_of_answers _ _ (hidle hcur ▸ hans)
    · exact hopen call hcur ho

/-- What a server writes is one block for each call in their order. The last call may be without one
if the stream ended or failed while its single request was read. -/
theorem replies_are_blocks (capacity : Nat) (reads : Bool) (registry : Registry) (h : History)
    (a : State × Registry) (hrun : Run (State.init capacity reads, registry) h a)
    (hwrites : a.1.outbox.gone = false) :
    InBlocks h.calls a.1.outbox.written ∧
    (a.1.isFinished = true → Answers h.calls a.1.outbox.written ∨
      ∃ front path call, h.calls = front ++ [(path, call.metadata)] ∧
        Method.ofPath? path = some call.method ∧ readsOne call.method = true ∧
        h.cutOff = some call ∧ Answers front a.1.outbox.written) ∧
    (reads = true → a.1.inbox.closed = true → Settled a.1 → a.1.isFinished = true) := by
  have ho := orderly_run capacity reads registry h a hrun hwrites
  refine ⟨inBlocks_of_orderly h a.1 ho, fun hfinished => ?_, fun hreads hclosed hsettled => ?_⟩
  · unfold State.isFinished at hfinished
    split at hfinished
    · rename_i failure hp
      obtain ⟨hcur, hcase⟩ := (orderly_finished_iff hp).mp ho
      have hsent : a.1.sent = a.1.outbox.written := by simp [State.sent, hcur]
      rw [← hsent]
      rcases hcase with hans | ⟨call, hcut, hone, front, path, base, heq, hm, hans, hbase⟩
      · exact Or.inl hans
      · refine Or.inr ⟨front, path, call, heq, hm, hone, hcut, ?_⟩
        rw [hbase]
        simpa using hans
    · cases hfinished
  · subst hreads
    obtain ⟨hroom, hcap⟩ := room_of_run capacity registry h a hrun
    rcases atRest_of_settled a.1 hsettled hwrites hroom hcap with hfinished | ⟨-, hdry, -⟩
    · exact hfinished
    · rw [hdry.2.2] at hclosed
      cases hclosed

/-- A peer that calls an unknown method and closes its side. -/
theorem replies_are_blocks_unknown_method :
    ∃ h a, Run (State.init 1 true, .empty) h a ∧ a.1.isFinished = true ∧
      (Answers h.calls a.1.outbox.written ∨
        ∃ front path call, h.calls = front ++ [(path, call.metadata)] ∧
          Method.ofPath? path = some call.method ∧ readsOne call.method = true ∧
          h.cutOff = some call ∧ Answers front a.1.outbox.written) := by
  let bytes : List UInt8 := Wire.encode (ClientFrame.call "X" .empty).toJson
  let start : State × Registry := (State.init 1 true, .empty)
  have hsent : Run start { History.empty with received := [] ++ bytes }
      (start.1.receive bytes, .empty) :=
    .receive _ _ _ bytes .start rfl
  have hclosed : Run start _ ((start.1.receive bytes).closeInput, .empty) := .close _ _ _ hsent
  obtain ⟨h, hrun⟩ := exists_run_of_schedule start ⟨0, epoch⟩ 20 _ _ hclosed
  have hend : (run ⟨0, epoch⟩ 20 ((start.1.receive bytes).closeInput, .empty)).1.isFinished =
      true := by decide +kernel
  have hgone : (run ⟨0, epoch⟩ 20 ((start.1.receive bytes).closeInput, .empty)).1.outbox.gone =
      false := by decide +kernel
  exact ⟨h, _, hrun, hend, (replies_are_blocks 1 true .empty h _ hrun hgone).2.1 hend⟩

end EchoServer.Connection
