import EchoServer.Connection.Schedule
import EchoServer.Server.Slots
import EchoServer.Settings.Basic

namespace EchoServer

structure Server where
  slots : Server.Slots
  registry : Registry
  /-- The connections that are being served, the oldest first. -/
  connections : List Connection.State
  /-- How many responses of a stream may wait. -/
  streamBuffer : Nat
  /-- How many seconds an operation is kept. -/
  retention : Nat

namespace Server

open Connection (Clock)

/-- Whether a server can be set up: there are that many slots. -/
def CanStart (s : Settings) : Prop := s.maxConnections.toNat ≤ maxPermits

instance (s : Settings) : Decidable (CanStart s) := inferInstanceAs (Decidable (_ ≤ _))

/-- Whether a server can be set up, lets somebody in, and can make its queues. -/
def CanServe (s : Settings) : Prop :=
  CanStart s ∧ 1 ≤ s.maxConnections.toNat ∧ Connection.CanQueue s.streamBuffer.toNat

def init (s : Settings) : Server :=
  { slots := .init s.maxConnections.toNat, registry := .empty, connections := [],
    streamBuffer := s.streamBuffer.toNat, retention := s.operationRetention.toNat }

/-- One cleanup: the operations are forgotten that ended at least `retention` seconds ago. -/
def cleanup (retention : Nat) (now : Time.Timestamp) (r : Registry) : Nat × Registry :=
  r.cleanup (retentionOf retention) now

/-- The seconds between two cleanups. -/
def cleanupSeconds (s : Settings) : Nat := max s.cleanupInterval.toNat 1

/-- A step of a server: one thing happens. -/
inductive Step (clock : Clock) : Server → Server → Prop
  /-- The accept loop takes a slot, or gives it back. -/
  | slot {s slots} (e : SlotEvent) (he : e = .taken ∨ e = .acceptFailed)
      (h : s.slots.step? e = some slots) : Step clock s { s with slots }
  | accepted {s slots} (h : s.slots.step? .accepted = some slots) :
      Step clock s { s with slots, connections := s.connections ++ [.init s.streamBuffer true] }
  /-- A connection that is over, or has broken down, gives its slot back. -/
  | ended {s slots c} (i : Nat) (hc : s.connections[i]? = some c)
      (hf : c.isFinished = true ∨ c.isBroken = true)
      (h : s.slots.step? .ended = some slots) :
      Step clock s { s with slots, connections := s.connections.eraseIdx i }
  | received {s c} (i : Nat) (hc : s.connections[i]? = some c) (bytes : List UInt8) :
      Step clock s { s with connections := s.connections.set i (c.receive bytes) }
  | inputClosed {s c} (i : Nat) (hc : s.connections[i]? = some c) :
      Step clock s { s with connections := s.connections.set i c.closeInput }
  | dropped {s c} (i : Nat) (hc : s.connections[i]? = some c) :
      Step clock s { s with connections := s.connections.set i c.drop }
  | moved {s c c' registry} (i : Nat) (hc : s.connections[i]? = some c)
      (h : Connection.Step clock (c, s.registry) (c', registry)) :
      Step clock s { s with registry, connections := s.connections.set i c' }
  | cleaned {s} :
      Step clock s { s with registry := (cleanup s.retention clock.now s.registry).2 }

end Server
end EchoServer
