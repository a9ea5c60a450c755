import EchoServer.Wire.Codec

namespace EchoServer.Connection

/-- How many bytes the peer's pipe holds unread. -/
def pipeSize : Nat := 65536

/-- What was sent, and what is being sent. -/
structure Outbox where
  /-- The frames that were written, the latest first. -/
  log : List ServerFrame
  /-- The frame that is being written, and how many of its bytes are still to go. -/
  current : Option (ServerFrame × Nat)
  /-- The bytes for which there is room; `none` if the peer takes whatever comes. -/
  room : Option Nat
  /-- Whether the peer is gone, so that writing fails. -/
  gone : Bool

namespace Outbox

/-- Nothing sent yet, to a peer that reads or to one that does not. -/
def empty (reads : Bool) : Outbox :=
  { log := [], current := none, room := if reads then none else some pipeSize, gone := false }

def written (o : Outbox) : List ServerFrame := o.log.reverse

def begin (o : Outbox) (f : ServerFrame) : Outbox :=
  { o with current := some (f, (Wire.encode f.toJson).length) }

/-- What a piece of writing comes to. -/
inductive Pushed
  | complete (o : Outbox)
  /-- There was room for a part of it. -/
  | part (o : Outbox)
  | failed

/-- Writes as much of `f` as there is room for, of which `n` bytes are still to go; `none` if
there is no room. -/
def push (o : Outbox) (f : ServerFrame) (n : Nat) : Option Pushed :=
  if o.gone then some .failed
  else match o.room with
    | none => some (.complete { o with log := f :: o.log, current := none })
    | some r =>
      if n ≤ r then
        some (.complete { o with log := f :: o.log, current := none, room := some (r - n) })
      else if r = 0 then none
      else some (.part { o with current := some (f, n - r), room := some 0 })

end Outbox
end EchoServer.Connection
