import EchoServer.Connection.State

/-! The parties of a connection move one at a time: main loop, handler, forwarder, watcher and
timer. Nothing here says who comes first. -/
namespace EchoServer.Connection

open Time (Timestamp)
open Wire (FrameError Inbox Received)

inductive Actor
  | main
  | handler
  | forwarder
  | watcher
  | timer
  deriving DecidableEq

def unknownMethod (path : String) : Status :=
  .of .unimplemented ("Method " ++ path ++ " is not implemented")

def secondRequest : Status :=
  .of .internal "expected exactly one request message, received more"

def noRequest : Status :=
  .of .internal "expected exactly one request message, received none"

def cancelledByPeer : Status := .of .cancelled "call cancelled by peer"

/-- The status of a call into which the next one bursts. -/
def callTooEarly : Status :=
  .of .internal "call started before the previous call finished"

/-- The status of a call whose peer stops sending in the middle of its stream. -/
def closedByPeer : Status := .of .cancelled "connection closed by peer"

def connectionFailed (e : FrameError) : Status :=
  .of .cancelled ("connection failed: " ++ e.message)

/-- The last frames of a call: its response, if it has one, and its trailers. -/
def lastFrames (o : Outcome (Option Json)) : List ServerFrame :=
  match o.result with
  | .ok (some body) => [.message body, .trailers .ok o.trailers]
  | .ok none => [.trailers .ok o.trailers]
  | .error s => [.trailers s o.trailers]

/-- The phase in which a call ends with an outcome. -/
def finish (o : Outcome (Option Json)) : Phase := .close (lastFrames o)

def reject (s : Status) : Phase := finish (.fail s)

def startCall (path : String) (metadata : Metadata) : Phase :=
  match Method.ofPath? path with
  | none => reject (unknownMethod path)
  | some .collect => .collect ⟨.collect, metadata⟩ []
  | some .chat => .work ⟨.chat, metadata⟩ (.stream ⟨.listen, [], true⟩) .off
  | some m => .gather ⟨m, metadata⟩ none

/-- What the main loop makes of a frame outside of a call; only a call counts. -/
def onIdle : Received ClientFrame → Phase
  | .frame (.call path metadata) => startCall path metadata
  | .frame _ => .idle
  | .ended => .finished none
  | .failed e => .finished (some e)

/-- The work of a call whose single request has come. -/
def workOf (call : Call) (body : Json) : Phase :=
  if call.method = .expand then .work call (.stream ⟨.start body, [], true⟩) .on
  else .work call (.request body) .on

/-- What a call that needs a single request makes of a frame. -/
def onGather (call : Call) (body : Option Json) : Received ClientFrame → Phase
  | .frame (.message b) => match body with
    | none => .gather call (some b)
    | some _ => reject secondRequest
  | .frame .halfClose => match body with
    | none => reject noRequest
    | some b => workOf call b
  | .frame .cancel => reject cancelledByPeer
  | .frame (.call _ _) => reject callTooEarly
  | .ended => .idle
  | .failed e => .finished (some e)

/-- What a stream of requests makes of a frame: the next request or a failure, or its natural
end. -/
def requestOf : Received ClientFrame → Option (Except Status EchoRequest)
  | .frame (.message b) => some (Service.decodeRequest EchoRequest.decoder b)
  | .frame .halfClose => none
  | .frame .cancel => some (.error cancelledByPeer)
  | .frame (.call _ _) => some (.error callTooEarly)
  | .ended => some (.error closedByPeer)
  | .failed e => some (.error (connectionFailed e))

def onCollect (call : Call) (contents : List String) (r : Received ClientFrame) : Phase :=
  match requestOf r with
  | none =>
    let response := Service.responseBody (Service.collectResponse contents).toJson
    finish (.of call.metadata (.ok (some response)))
  | some item => match item.bind (Service.collectStep contents) with
    | .ok contents => .collect call contents
    | .error s => reject s

def onListen (r : Received ClientFrame) : Handler :=
  match requestOf r with
  | none => .done (.ok ())
  | some item => match item.bind Service.chatStep with
    | .ok response => .reply response
    | .error s => .done (.error s)

/-- What the watcher makes of a frame: what it does next, and the call to put aside. -/
def onWatch : Received ClientFrame → Watch × Option (String × Metadata)
  | .frame (.call path metadata) => (.off, some (path, metadata))
  | .frame .cancel => (.cancelled, none)
  | .frame _ => (.on, none)
  | .ended => (.cancelled, none)
  | .failed _ => (.cancelled, none)

/-- The handler sends a response: it goes to the end of the queue if there is room, and nowhere
if the forwarder has stopped. `none` if the handler has to wait. -/
def Stream.send (s : Stream) (capacity : Nat) (r : EchoResponse) (next : Handler) :
    Option Stream :=
  if !s.forwarding then some { s with handler := .done (.error Service.streamClosed) }
  else if s.queue.length < capacity then some { s with handler := next, queue := s.queue ++ [r] }
  else none

/-- The handler of `Expand` looks at its request. -/
def startExpand (body : Json) : Handler :=
  match Service.decodeRequest EchoRequest.decoder body with
  | .error s => .done (.error s)
  | .ok r => .send (Service.expandResponses r) (Service.expandVerdict r)

/-- How a stream ends whose handler has come to `result`. -/
def streamEnd (call : Call) (result : Except Status Unit) : Phase :=
  finish ((Outcome.of call.metadata result).map fun _ => none)

/-- Reads on, taking at most `chunk` bytes, and goes on in the phase that the frame leads to. -/
def State.readInto (s : State) (chunk : Nat) (phase : Received ClientFrame → Phase) :
    Option State :=
  match s.inbox.poll ClientFrame.decoder chunk with
  | none => none
  | some (none, inbox) => some { s with inbox }
  | some (some r, inbox) => some { s with inbox, phase := phase r }

/-- The main loop writes the last frames of a call. -/
def State.writeLast (s : State) (frames : List ServerFrame) : Option State :=
  match s.outbox.current with
  | some (f, n) => match s.outbox.push f n with
    | none => none
    | some .failed => some { s with phase := .finished (some .peerGone) }
    | some (.part outbox) => some { s with outbox }
    | some (.complete outbox) => some { s with outbox }
  | none => match frames with
    | [] => some { s with phase := .idle }
    | f :: rest => some { s with outbox := s.outbox.begin f, phase := .close rest }

def State.actMain (s : State) (chunk : Nat) : Option State :=
  match s.phase with
  | .idle => match s.queued with
    | some (path, metadata) =>
      some { s with queued := none, phase := startCall path metadata }
    | none => s.readInto chunk onIdle
  | .gather call body => s.readInto chunk (onGather call body)
  | .collect call contents => s.readInto chunk (onCollect call contents)
  | .close frames => s.writeLast frames
  | .work _ _ _ => none
  | .finished _ => none

def State.actHandler (s : State) (clock : Clock) (chunk : Nat) (registry : Registry) :
    Option (State × Registry) :=
  match s.phase with
  | .work call (.request body) watch =>
    let (a, registry) := Service.start call.method call.metadata body clock.now registry
    match a with
    | .done o => some ({ s with phase := finish (o.map some) }, registry)
    | .delayed n r =>
      some ({ s with phase := .work call (.delay (clock.elapsed + n) r) watch }, registry)
  | .work _ (.delay _ _) watch =>
    if watch = .cancelled then
      some ({ s with phase := reject Service.cancelledInDelay }, registry)
    else none
  | .work call (.stream t) watch =>
    let stay (t : Stream) : State × Registry :=
      ({ s with phase := .work call (.stream t) watch }, registry)
    match t.handler with
    | .start body => some (stay { t with handler := startExpand body })
    | .send [] verdict => some (stay { t with handler := .done verdict })
    | .send (r :: rest) verdict => (t.send s.capacity r (.send rest verdict)).map stay
    | .reply r => (t.send s.capacity r .listen).map stay
    | .listen =>
      match s.inbox.poll ClientFrame.decoder chunk with
      | none => none
      | some (none, inbox) => some ({ s with inbox }, registry)
      | some (some r, inbox) =>
        some ({ s with inbox, phase := .work call (.stream { t with handler := onListen r }) watch },
          registry)
    | .done _ => none
  | _ => none

def State.actForwarder (s : State) : Option State :=
  match s.phase with
  | .work call (.stream t) watch =>
    match s.outbox.current with
    | some (f, n) => match s.outbox.push f n with
      | none => none
      | some .failed =>
        some { s with outbox := { s.outbox with current := none },
                      phase := .work call (.stream { t with forwarding := false }) watch }
      | some (.part outbox) => some { s with outbox }
      | some (.complete outbox) => some { s with outbox }
    | none =>
      if t.forwarding then
        match t.queue with
        | r :: rest =>
          some { s with outbox := s.outbox.begin (.message (Service.responseBody r.toJson)),
                        phase := .work call (.stream { t with queue := rest }) watch }
        | [] => match t.handler with
          | .done result => some { s with phase := streamEnd call result }
          | _ => none
      else match t.handler with
        | .done _ => some { s with phase := .finished (some .peerGone) }
        | _ => none
  | _ => none

def State.actWatcher (s : State) (chunk : Nat) : Option State :=
  match s.phase with
  | .work call work .on =>
    match s.inbox.poll ClientFrame.decoder chunk with
    | none => none
    | some (none, inbox) => some { s with inbox }
    | some (some r, inbox) =>
      let (watch, queued) := onWatch r
      some { s with inbox, queued := queued.or s.queued, phase := .work call work watch }
  | _ => none

def State.actTimer (s : State) (clock : Clock) : Option State :=
  match s.phase with
  | .work call (.delay deadline r) _ =>
    if deadline ≤ clock.elapsed then
      some { s with phase := finish ((Service.blockOutcome call.metadata r).map some) }
    else none
  | _ => none

/-- The move of one party, which takes at most `chunk` bytes if it reads; `none` if it cannot move,
as nobody can on a connection that has broken down. -/
def act (who : Actor) (chunk : Nat) (clock : Clock) (registry : Registry) (s : State) :
    Option (State × Registry) :=
  if s.isBroken then none
  else match who with
    | .main => (s.actMain chunk).map (·, registry)
    | .handler => s.actHandler clock chunk registry
    | .forwarder => s.actForwarder.map (·, registry)
    | .watcher => (s.actWatcher chunk).map (·, registry)
    | .timer => (s.actTimer clock).map (·, registry)

/-- Some party can move from the first state to the second. -/
def Step (clock : Clock) (a b : State × Registry) : Prop :=
  ∃ who chunk, act who chunk clock a.2 a.1 = some b

def Still (clock : Clock) (a : State × Registry) : Prop := ∀ b, ¬ Step clock a b

/-- Nobody can move, and that is not because the connection has broken down. -/
def Quiet (clock : Clock) (a : State × Registry) : Prop := a.1.isBroken = false ∧ Still clock a

end EchoServer.Connection
