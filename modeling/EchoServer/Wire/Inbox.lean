import EchoServer.Wire.Codec

/-! A malformed frame stays in the buffer, so whoever reads again meets it again. -/
namespace EchoServer.Wire

open Json (Decoder)

/-- What was received and not yet taken as a frame. -/
structure Inbox where
  /-- The bytes that the reader holds. -/
  buffer : List UInt8
  /-- The bytes that have arrived behind them. -/
  arrived : List UInt8
  closed : Bool

inductive Received (α : Type)
  | frame (f : α)
  /-- The stream ended between two frames. -/
  | ended
  | failed (e : FrameError)

namespace Inbox

def empty : Inbox := ⟨[], [], false⟩

def receive (i : Inbox) (bytes : List UInt8) : Inbox := { i with arrived := i.arrived ++ bytes }

def close (i : Inbox) : Inbox := { i with closed := true }

/-- The bytes that are not taken yet. -/
def size (i : Inbox) : Nat := i.buffer.length + i.arrived.length

/-- Looks at the buffer alone. -/
def fromBuffer {α : Type} (frame : Decoder α) (i : Inbox) : Option (Received α × Inbox) :=
  match parse frame i.buffer with
  | .ok (.complete f _ rest) => some (.frame f, { i with buffer := rest })
  | .ok .incomplete => none
  | .error e => some (.failed e, i)

/-- Moves the first `n` of the arrived bytes into the buffer. -/
def take (i : Inbox) (n : Nat) : Inbox :=
  { i with buffer := i.buffer ++ i.arrived.take n, arrived := i.arrived.drop n }

/-- One step of a reader: it takes a frame from its buffer, or up to `n` more bytes into it, or
finds that there will be none. `none` if it has to wait. -/
def poll {α : Type} (frame : Decoder α) (n : Nat) (i : Inbox) :
    Option (Option (Received α) × Inbox) :=
  match i.fromBuffer frame with
  | some (r, j) => some (some r, j)
  | none =>
    if i.arrived.isEmpty then
      if i.closed then some (some (if i.buffer.isEmpty then .ended else .failed .unexpectedEnd), i)
      else none
    else some (none, i.take (max n 1))

/-- Reads on until there is something to get, taking all that has arrived at once; `none` if the
reader has to wait. -/
def next {α : Type} (frame : Decoder α) (i : Inbox) : Option (Received α) × Inbox :=
  match i.poll frame i.arrived.length with
  | none => (none, i)
  | some (some r, j) => (some r, j)
  | some (none, j) =>
    match j.poll frame 0 with
    | some (r, k) => (r, k)
    | none => (none, j)

end Inbox
end EchoServer.Wire
