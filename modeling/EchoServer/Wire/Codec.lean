import EchoServer.Wire.Frame

namespace EchoServer.Wire

open Json (Decoder)

/-- The largest body, in bytes. -/
def maxFrameSize : Nat := 16 * 1024 * 1024

/-- How many bytes may arrive before the end of the length is seen. -/
def maxHeaderLength : Nat := 20

/-- Why bytes are no frame, or a connection broke. -/
inductive FrameError
  | invalidLength (shown : String)
  | tooLarge (size : Nat)
  | invalidBody (e : Json.DecodeError)
  | unexpectedEnd
  /-- A write failed because the peer is gone. -/
  | peerGone

def FrameError.message : FrameError → String
  | invalidLength shown => "invalid frame length: " ++ shown
  | tooLarge size => "frame of " ++ String.ofList (Nat.toDigits 10 size) ++
      " bytes exceeds the 16MB limit"
  | invalidBody e => "invalid frame body: " ++ e.message
  | unexpectedEnd => "connection closed mid-frame"
  | peerGone => "broken pipe"

/-- The bytes before and after the first CR LF. -/
def splitLine : List UInt8 → Option (List UInt8 × List UInt8)
  | [] => none
  | b :: bs =>
    match b == 0x0D, bs with
    | true, 0x0A :: rest => some ([], rest)
    | _, _ => (splitLine bs).map fun (line, rest) => (b :: line, rest)

/-- The number that a line of digits spells, if it fits 64 bits. -/
def lengthOf? (line : List UInt8) : Option Nat :=
  if !line.isEmpty && line.all Json.isDigit then
    let n := Nat.ofDigitChars 10 (line.map fun b => Char.ofNat b.toNat) 0
    if n < 18446744073709551616 then some n else none
  else none

/-- What the front of some bytes is. -/
inductive Parsed (α : Type)
  /-- A frame, the number of bytes it takes, and the bytes behind it. -/
  | complete (frame : α) (size : Nat) (rest : List UInt8)
  | incomplete

/-- Reads one frame from the front of `bytes`. -/
def parse {α : Type} (frame : Decoder α) (bytes : List UInt8) : Except FrameError (Parsed α) :=
  match splitLine bytes with
  | none =>
    if maxHeaderLength < bytes.length then
      .error (.invalidLength (Text.lossy (bytes.take maxHeaderLength)))
    else .ok .incomplete
  | some (line, rest) =>
    match lengthOf? line with
    | none => .error (.invalidLength (Text.lossy line))
    | some length =>
      if maxFrameSize < length then .error (.tooLarge length)
      else if rest.length < length then .ok .incomplete
      else match frame.ofText (rest.take length) with
        | .ok f => .ok (.complete f (line.length + 2 + length) (rest.drop length))
        | .error e => .error (.invalidBody e)

/-- The bytes of a frame whose body is `v`. -/
def encode (v : Json) : List UInt8 :=
  let body := v.print
  Json.utf8 (Nat.toDigits 10 body.length) ++ [0x0D, 0x0A] ++ body

end EchoServer.Wire
