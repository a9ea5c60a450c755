import EchoServer.Connection.Outbox
import EchoServer.Service.Unary
import EchoServer.Wire.Inbox

/-! Calls run one after the other. A watcher reads on behind a call with one request, and puts the
next call aside; responses of a stream go through a bounded queue to a forwarder. -/
namespace EchoServer

/-- The most slots of a server, and the most places of a queue: an eighth of the largest 64-bit
word. -/
def maxPermits : Nat := 18446744073709551615 / 8

namespace Connection

open Time (Timestamp)
open Wire (FrameError Inbox Received)

structure Call where
  method : Method
  metadata : Metadata

/-- The handler of a stream of responses. -/
inductive Handler
  /-- Has the body of the request, and has not looked at it. -/
  | start (body : Json)
  /-- Has these responses to send, and ends with that verdict. -/
  | send (pending : List EchoResponse) (verdict : Except Status Unit)
  | listen
  /-- Has the response to a request to send, and then waits for the next one. -/
  | reply (r : EchoResponse)
  | done (result : Except Status Unit)

/-- A stream of responses on its way to the peer. -/
structure Stream where
  handler : Handler
  /-- What the handler has sent and the forwarder has not taken. -/
  queue : List EchoResponse
  /-- Whether the forwarder still takes responses; it stops when a write fails. -/
  forwarding : Bool

inductive Work
  | request (body : Json)
  /-- A response that is held back until a time has passed. -/
  | delay (deadline : Nat) (r : BlockRequest)
  | stream (s : Stream)

/-- What the watcher of a running call is doing. -/
inductive Watch
  /-- There is none, or it has stopped. -/
  | off
  | on
  | cancelled
  deriving DecidableEq

/-- What a connection is doing. -/
inductive Phase
  | idle
  /-- Reads the single request of a call. -/
  | gather (call : Call) (body : Option Json)
  | collect (call : Call) (contents : List String)
  | work (call : Call) (work : Work) (watch : Watch)
  /-- Writes the last frames of a call. -/
  | close (frames : List ServerFrame)
  /-- Is over, for good or because of a failure. -/
  | finished (failure : Option FrameError)

structure State where
  inbox : Inbox
  outbox : Outbox
  /-- The call that was put aside. -/
  queued : Option (String × Metadata)
  /-- How many responses of a stream may wait in its queue. -/
  capacity : Nat
  phase : Phase

def State.isFinished (s : State) : Bool :=
  match s.phase with
  | .finished _ => true
  | _ => false

def State.init (streamBuffer : Nat) (reads : Bool) : State :=
  { inbox := .empty, outbox := .empty reads, queued := none, capacity := max streamBuffer 1,
    phase := .idle }

/-- Whether a queue with that many places can be made. -/
def CanQueue (places : Nat) : Prop := 1 ≤ places ∧ places ≤ maxPermits

instance (places : Nat) : Decidable (CanQueue places) := inferInstanceAs (Decidable (_ ∧ _))

/-- Whether there is a stream of responses. -/
def Phase.isStream : Phase → Bool
  | .work _ (.stream _) _ => true
  | _ => false

/-- A stream has begun whose queue cannot be made. The connection is lost then. -/
def State.isBroken (s : State) : Bool := s.phase.isStream && !decide (CanQueue s.capacity)

/-- What the clocks show: the time since the server was started, in nanoseconds, and the time of
the calendar. -/
structure Clock where
  elapsed : Nat
  now : Timestamp

def State.receive (s : State) (bytes : List UInt8) : State :=
  { s with inbox := s.inbox.receive bytes }

def State.closeInput (s : State) : State := { s with inbox := s.inbox.close }

def State.drop (s : State) : State :=
  { s with inbox := s.inbox.close, outbox := { s.outbox with gone := true } }

end Connection
end EchoServer
