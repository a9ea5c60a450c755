import EchoServer.Proofs.Connection.Blocks
import EchoServer.Proofs.Wire.RoundTrip

/-! `serve` reads the frames one after the other, with nobody else moving in between. A connection
whose parties move in any order says the same, which is `Serving`. -/
namespace EchoServer.Connection

open Wire (Inbox Received)

/-- What a handler of a stream sends of its own accord, and how it ends if it does not wait for a
request first. -/
def Handler.flush : Handler → List EchoResponse × Option (Except Status Unit)
  | .start body => match Service.decodeRequest EchoRequest.decoder body with
    | .error s => ([], some (.error s))
    | .ok r => (Service.expandResponses r, some (Service.expandVerdict r))
  | .send pending verdict => (pending, some verdict)
  | .listen => ([], none)
  | .reply r => ([r], none)
  | .done result => ([], some result)

/-- The messages of responses. -/
def messages (responses : List EchoResponse) : List ServerFrame :=
  responses.map fun r => .message (Service.responseBody r.toJson)

/-- The outcome of a request when it is answered with a look at the clock and the registry. -/
def answerAt (call : Call) (body : Json) (g : Reading) : Outcome Json :=
  match (Service.start call.method call.metadata body g.now g.registry).1 with
  | .done o => o
  | .delayed _ request => Service.blockOutcome call.metadata request

/-- What serving comes to: the frames that are sent, the phase that is left, and the readings that
nobody needed. -/
structure Served where
  frames : List ServerFrame
  phase : Phase
  readings : List Reading

/-- The same, behind some frames. -/
def Served.after (frames : List ServerFrame) (v : Served) : Served :=
  { v with frames := frames ++ v.frames }

/-- The phase in which a stream waits for the next request. -/
def listening (call : Call) : Phase := .work call (.stream ⟨.listen, [], true⟩) .off

/-- Runs a phase to the point where it needs a frame; `none` if it lacks a reading. -/
def Phase.flush (p : Phase) (gs : List Reading) : Option Served :=
  match p with
  | .close frames => some ⟨frames, .idle, gs⟩
  | .work call (.request body) _ => match gs with
    | [] => none
    | g :: gs => some ⟨lastFrames ((answerAt call body g).map some), .idle, gs⟩
  | .work call (.delay _ request) _ =>
    some ⟨lastFrames ((Service.blockOutcome call.metadata request).map some), .idle, gs⟩
  | .work call (.stream x) _ => match x.handler.flush with
    | (responses, some result) =>
      some ⟨messages (x.queue ++ responses) ++
        lastFrames ((Outcome.of call.metadata result).map fun _ => none), .idle, gs⟩
    | (responses, none) => some ⟨messages (x.queue ++ responses), listening call, gs⟩
  | p => some ⟨[], p, gs⟩

/-- What a phase makes of the frame that it waits for. -/
def Phase.onFrame (p : Phase) (f : ClientFrame) : Phase :=
  match p with
  | .idle => onIdle (.frame f)
  | .gather call body => onGather call body (.frame f)
  | .collect call contents => onCollect call contents (.frame f)
  | .work call (.stream x) watch =>
    .work call (.stream { x with handler := onListen (.frame f) }) watch
  | p => p

/-- Serves frames one after the other. -/
def serve : Phase → List ClientFrame → List Reading → Option Served
  | p, [], gs => p.flush gs
  | p, f :: fs, gs => (p.flush gs).bind fun v =>
    (serve (v.phase.onFrame f) fs v.readings).map (Served.after v.frames)

theorem map_after_nil (v : Option Served) : v.map (Served.after []) = v := Option.map_id'

theorem Served.after_after (a b : List ServerFrame) (v : Served) :
    (v.after b).after a = v.after (a ++ b) := by
  simp [Served.after]

/-- A phase that comes to another one before the next frame is served as that one. -/
theorem serve_after (p q : Phase) (out : List ServerFrame) (gs gs' : List Reading)
    (h : p.flush gs = (q.flush gs').map (Served.after out)) (fs : List ClientFrame) :
    serve p fs gs = (serve q fs gs').map (Served.after out) := by
  cases fs with
  | nil => exact h
  | cons f fs =>
    rw [serve, serve, h]
    cases q.flush gs' with
    | none => rfl
    | some v =>
      simp only [Option.map_some, Option.bind_some, Option.map_map, Function.comp_def,
        Served.after_after]
      rfl

theorem serve_cons (p : Phase) (f : ClientFrame) (fs : List ClientFrame) (gs : List Reading)
    (h : p.flush gs = some ⟨[], p, gs⟩) : serve p (f :: fs) gs = serve (p.onFrame f) fs gs := by
  rw [serve, h, Option.bind_some, map_after_nil]

/-- A phase that neither works nor writes its last frames needs a frame at once. -/
theorem flush_waiting (p : Phase) (gs : List Reading)
    (hclose : ∀ frames, p = .close frames → False)
    (hrequest : ∀ call body watch, p = .work call (.request body) watch → False)
    (hdelay : ∀ call deadline request watch, p = .work call (.delay deadline request) watch → False)
    (hstream : ∀ call x watch, p = .work call (.stream x) watch → False) :
    p.flush gs = some ⟨[], p, gs⟩ := by
  cases p with
  | close frames => exact absurd rfl (hclose frames)
  | work call work watch =>
    cases work with
    | request body => exact absurd rfl (hrequest call body watch)
    | delay deadline request => exact absurd rfl (hdelay call deadline request watch)
    | stream x => exact absurd rfl (hstream call x watch)
  | _ => rfl

/-- Where a phase has run to, it needs a frame. -/
theorem flush_flushed (p : Phase) (gs gs' : List Reading) (v : Served)
    (h : p.flush gs = some v) : v.phase.flush gs' = some ⟨[], v.phase, gs'⟩ := by
  unfold Phase.flush at h
  split at h
  · obtain rfl := Option.some.inj h
    rfl
  · split at h
    · cases h
    · obtain rfl := Option.some.inj h
      rfl
  · obtain rfl := Option.some.inj h
    rfl
  · split at h
    · obtain rfl := Option.some.inj h
      rfl
    · obtain rfl := Option.some.inj h
      rfl
  · rename_i hclose hrequest hdelay hstream
    obtain rfl := Option.some.inj h
    exact flush_waiting p gs' hclose hrequest hdelay hstream

theorem serve_append (p : Phase) (fs fs' : List ClientFrame) (gs : List Reading) :
    serve p (fs ++ fs') gs = (serve p fs gs).bind fun v =>
      (serve v.phase fs' v.readings).map (Served.after v.frames) := by
  induction fs generalizing p gs with
  | nil =>
    rw [List.nil_append, serve]
    cases hp : p.flush gs with
    | none => cases fs' <;> simp [serve, hp]
    | some v =>
      have hv := flush_flushed p gs v.readings v hp
      cases fs' with
      | nil => simp [serve, hp, hv, Served.after]
      | cons f fs' =>
        simp only [serve, hp, hv, Option.bind_some, Option.map_map]
        rfl
  | cons f fs ih =>
    rw [List.cons_append, serve, serve]
    cases hp : p.flush gs with
    | none => rfl
    | some v =>
      simp only [Option.bind_some, ih]
      cases serve (v.phase.onFrame f) fs v.readings with
      | none => rfl
      | some w =>
        simp only [Option.bind_some, Option.map_some, Option.map_map, Function.comp_def,
          Served.after_after]
        rfl

/-- A phase that runs to the next frame looks at the first readings, and never at those behind
them. -/
theorem flush_local (p : Phase) (gs : List Reading) (v : Served) (h : p.flush gs = some v) :
    ∃ used, gs = used ++ v.readings ∧
      ∀ more, p.flush (used ++ more) = some { v with readings := more } := by
  unfold Phase.flush at h
  split at h
  · obtain rfl := Option.some.inj h
    exact ⟨[], rfl, fun more => rfl⟩
  · split at h
    · cases h
    · rename_i g gs
      -- the answer to a request is the only thing that takes a reading
      obtain rfl := Option.some.inj h
      exact ⟨[g], rfl, fun more => rfl⟩
  · obtain rfl := Option.some.inj h
    exact ⟨[], rfl, fun more => rfl⟩
  · split at h
    · rename_i responses result hx
      obtain rfl := Option.some.inj h
      exact ⟨[], rfl, fun more => by simp [Phase.flush, hx]⟩
    · rename_i responses hx
      obtain rfl := Option.some.inj h
      exact ⟨[], rfl, fun more => by simp [Phase.flush, hx]⟩
  · rename_i hclose hrequest hdelay hstream
    obtain rfl := Option.some.inj h
    refine ⟨[], rfl, ?_⟩
    intro more
    exact flush_waiting p more hclose hrequest hdelay hstream

/-- Serving looks at some of the readings, and never at those behind them. -/
theorem serve_local (p : Phase) (fs : List ClientFrame) (gs : List Reading) (v : Served)
    (h : serve p fs gs = some v) :
    ∃ used, gs = used ++ v.readings ∧
      ∀ more, serve p fs (used ++ more) = some { v with readings := more } := by
  induction fs generalizing p gs v with
  | nil => exact flush_local p gs v h
  | cons f fs ih =>
    rw [serve, Option.bind_eq_some_iff] at h
    obtain ⟨w, hw, hmap⟩ := h
    obtain ⟨u, hu, rfl⟩ := Option.map_eq_some_iff.mp hmap
    obtain ⟨used, rfl, hused⟩ := flush_local p gs w hw
    obtain ⟨used', hw', hused'⟩ := ih _ _ u hu
    refine ⟨used ++ used', by rw [hw', List.append_assoc]; rfl, ?_⟩
    intro more
    rw [List.append_assoc, serve, hused, Option.bind_some, hused']
    rfl

end EchoServer.Connection
