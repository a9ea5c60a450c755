/-! The accept loop takes a slot before it waits for a connection, and hands it to the one that
comes. A connection gives its slot back when it ends. -/
namespace EchoServer.Server

/-- The slots of a server, by whom they are held. -/
structure Slots where
  /-- Nobody has these. -/
  free : Nat
  /-- Whether the accept loop has one. -/
  held : Bool
  /-- Connections have these. -/
  serving : Nat
  deriving DecidableEq

inductive SlotEvent
  | taken
  | accepted
  | acceptFailed
  | ended
  deriving DecidableEq

namespace Slots

def init (limit : Nat) : Slots := { free := limit, held := false, serving := 0 }

/-- The slots after an event, if it can happen. -/
def step? (s : Slots) : SlotEvent → Option Slots
  | .taken =>
    if 0 < s.free ∧ ¬ s.held then some { s with free := s.free - 1, held := true } else none
  | .accepted => if s.held then some { s with held := false, serving := s.serving + 1 } else none
  | .acceptFailed => if s.held then some { s with free := s.free + 1, held := false } else none
  | .ended =>
    if 0 < s.serving then some { s with free := s.free + 1, serving := s.serving - 1 } else none

/-- The slots after events that happen one after the other. -/
def run? (s : Slots) (events : List SlotEvent) : Option Slots := events.foldlM step? s

end Slots
end EchoServer.Server
