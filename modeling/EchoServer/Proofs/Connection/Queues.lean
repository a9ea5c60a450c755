import EchoServer.Connection.Schedule
import EchoServer.Proofs.Connection.Moves

namespace EchoServer.Connection

open Wire (Received)

/-- The responses to a call of the method are sent as a stream. -/
def IsStreaming (m : Method) : Prop := m = .chat ∨ m = .expand

/-- If there is a stream, it is one of a call that has streams. -/
def Phase.Streaming (p : Phase) : Prop :=
  ∀ call t watch, p = .work call (.stream t) watch → IsStreaming call.method

section
variable {call : Call} {p : Phase}

theorem streaming_of_no_stream (h : p.isStream = false) : p.Streaming := by
  intro call t watch hp
  rw [hp] at h
  cases h

theorem streaming_finish (o : Outcome (Option Json)) : (finish o).Streaming :=
  streaming_of_no_stream rfl

theorem streaming_work_stream {t : Stream} {watch : Watch} :
    (Phase.work call (.stream t) watch).Streaming ↔ IsStreaming call.method := by
  constructor
  · intro h
    exact h call t watch rfl
  · intro h call' t' watch' hp
    obtain ⟨rfl, -, -⟩ := Phase.work.inj hp
    exact h

theorem streaming_startCall (path : String) (metadata : Metadata) :
    (startCall path metadata).Streaming := by
  unfold startCall
  split
  · exact streaming_finish _
  · exact streaming_of_no_stream rfl
  · exact streaming_work_stream.mpr (Or.inl rfl)
  · exact streaming_of_no_stream rfl

theorem streaming_onIdle (got : Received ClientFrame) : (onIdle got).Streaming := by
  cases got with
  | frame f =>
    cases f with
    | call path metadata => exact streaming_startCall path metadata
    | _ => exact streaming_of_no_stream rfl
  | ended => exact streaming_of_no_stream rfl
  | failed e => exact streaming_of_no_stream rfl

theorem streaming_workOf (call : Call) (body : Json) : (workOf call body).Streaming := by
  unfold workOf
  split
  · rename_i hmethod
    exact streaming_work_stream.mpr (Or.inr hmethod)
  · exact streaming_of_no_stream rfl

theorem streaming_onGather (call : Call) (body : Option Json) (got : Received ClientFrame) :
    (onGather call body got).Streaming := by
  unfold onGather
  split
  · split
    · exact streaming_of_no_stream rfl
    · exact streaming_finish _
  · split
    · exact streaming_finish _
    · exact streaming_workOf call _
  · exact streaming_finish _
  · exact streaming_finish _
  · exact streaming_of_no_stream rfl
  · exact streaming_of_no_stream rfl

theorem streaming_onCollect (call : Call) (contents : List String) (got : Received ClientFrame) :
    (onCollect call contents got).Streaming := by
  unfold onCollect
  split
  · exact streaming_finish _
  · split
    · exact streaming_of_no_stream rfl
    · exact streaming_finish _

/-- Whatever is read, there are streams only where they belong. -/
theorem streaming_read {s : State} {k : Received ClientFrame → Phase} (hk : s.reads? = some k)
    (h : s.phase.Streaming) (got : Received ClientFrame) : (k got).Streaming := by
  unfold State.reads? at hk
  split at hk
  · split at hk
    · obtain rfl := Option.some.inj hk
      exact streaming_onIdle got
    · cases hk
  · obtain rfl := Option.some.inj hk
    exact streaming_onGather _ _ got
  · obtain rfl := Option.some.inj hk
    exact streaming_onCollect _ _ got
  · rename_i hp
    split at hk
    · obtain rfl := Option.some.inj hk
      rw [hp, streaming_work_stream] at h
      exact streaming_work_stream.mpr h
    · cases hk
  · cases hk

end

/-- The queues of the connection are to have that many places, and streams are where they belong. -/
structure Provided (places : Nat) (s : State) : Prop where
  capacity : s.capacity = places
  streaming : s.phase.Streaming

theorem provided_init (streamBuffer : Nat) (reads : Bool) :
    Provided (max streamBuffer 1) (State.init streamBuffer reads) :=
  ⟨rfl, streaming_of_no_stream rfl⟩

theorem provided_move {clock : Clock} {places : Nat} {a b : State × Registry}
    (hmove : Move clock a b) (h : Provided places a.1) : Provided places b.1 := by
  obtain ⟨hcapacity, hstreaming⟩ := h
  -- a move within a stream leaves the call as it is
  have hstay {s : State} {call : Call} {t : Stream} {watch : Watch} (t' : Stream)
      (hp : s.phase = .work call (.stream t) watch) (h : s.phase.Streaming) :
      (Phase.work call (.stream t') watch).Streaming := by
    rw [hp, streaming_work_stream] at h
    exact streaming_work_stream.mpr h
  cases hmove with
  | fetch s r n hr hp ha hn => exact ⟨hcapacity, hstreaming⟩
  | read s r n k got inbox hk hpoll => exact ⟨hcapacity, streaming_read hk hstreaming got⟩
  | takeUp s r path metadata hp hq => exact ⟨hcapacity, streaming_startCall path metadata⟩
  | watch s r n call work got inbox hp hpoll =>
    refine ⟨hcapacity, ?_⟩
    intro call' t watch hwork
    obtain ⟨rfl, rfl, -⟩ := Phase.work.inj hwork
    exact hstreaming _ _ _ hp
  | answer s r call body watch o r' hp hs => exact ⟨hcapacity, streaming_finish _⟩
  | delay s r call body watch n request r' hp hs =>
    exact ⟨hcapacity, streaming_of_no_stream rfl⟩
  | cancel s r call deadline request hp => exact ⟨hcapacity, streaming_finish _⟩
  | expire s r call deadline request watch hp hd => exact ⟨hcapacity, streaming_finish _⟩
  | expand s r call t body watch hp ht => exact ⟨hcapacity, hstay _ hp hstreaming⟩
  | sent s r call t verdict watch hp ht => exact ⟨hcapacity, hstay _ hp hstreaming⟩
  | send s r call t x next watch hp ht hf hroom => exact ⟨hcapacity, hstay _ hp hstreaming⟩
  | refuse s r call t x next watch hp ht hf => exact ⟨hcapacity, hstay _ hp hstreaming⟩
  | forward s r call t x rest watch hp hc hf hq => exact ⟨hcapacity, hstay _ hp hstreaming⟩
  | endStream s r call t result watch hp ht hc hf hq => exact ⟨hcapacity, streaming_finish _⟩
  | giveUp s r call t result watch hp ht hc hf => exact ⟨hcapacity, streaming_of_no_stream rfl⟩
  | writePart s r f n outbox hw hc hpush => exact ⟨hcapacity, hstreaming⟩
  | write s r f n outbox hw hc hpush => exact ⟨hcapacity, hstreaming⟩
  | failStream s r call t watch f n hp hc hpush => exact ⟨hcapacity, hstay _ hp hstreaming⟩
  | failLast s r frames f n hp hc hpush => exact ⟨hcapacity, streaming_of_no_stream rfl⟩
  | beginLast s r f rest hp hc => exact ⟨hcapacity, streaming_of_no_stream rfl⟩
  | endLast s r hp hc => exact ⟨hcapacity, streaming_of_no_stream rfl⟩

theorem isStream_iff (p : Phase) :
    p.isStream = true ↔ ∃ call t watch, p = .work call (.stream t) watch := by
  constructor
  · intro h
    unfold Phase.isStream at h
    split at h
    · exact ⟨_, _, _, rfl⟩
    · cases h
  · intro h
    obtain ⟨call, t, watch, rfl⟩ := h
    rfl

/-- With queues that can be made, a connection does not break down. -/
theorem Provided.whole {places : Nat} {s : State} (h : Provided places s)
    (hplaces : CanQueue places) : s.isBroken = false :=
  whole_of_canQueue (h.capacity ▸ hplaces)

section
variable {clock : Clock} {a : State × Registry} (h : a.1.isBroken = true)
include h

/-- A connection that has broken down stays as it is. -/
theorem still_of_isBroken : Still clock a := by
  intro b hstep
  cases h.symm.trans hstep.whole

theorem settle_of_isBroken : settle clock a = a := by
  have hmove : move clock a = none := by
    cases hmove : move clock a with
    | none => rfl
    | some b => exact absurd (step_of_move hmove) (still_of_isBroken h b)
  rw [settle]
  cases a.1.budget with
  | zero => rfl
  | succ n => rw [run, hmove]

end
end EchoServer.Connection
