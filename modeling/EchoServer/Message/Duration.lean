import EchoServer.Json.Record
import EchoServer.Time.Timestamp

namespace EchoServer

structure Duration where
  seconds : Int64
  nanos : Int32
  deriving DecidableEq

namespace Duration

def zero : Duration := ⟨0, 0⟩

/-- The total in nanoseconds. -/
def total (d : Duration) : Int := d.seconds.toInt * 1000000000 + d.nanos.toInt

/-- The longest delay, in nanoseconds: `2 ^ 64 - 1` of them. -/
def maxDelay : Nat := 18446744073709551615

/-- The time to wait, in nanoseconds: none for a negative total. -/
def toDelay (d : Duration) : Nat := min d.total.toNat maxDelay

/-- The longest span of time, in nanoseconds: `2 ^ 63 - 1` milliseconds. -/
def maxSpan : Int := 9223372036854775807 * 1000000

/-- The most seconds that a span is made of. -/
def maxSpanSeconds : Int := 9223372036854775807 / 1000

/-- A span of whole seconds, in nanoseconds, if spans are that long. -/
def spanOfSeconds? (n : Int) : Option Int :=
  if -maxSpanSeconds ≤ n ∧ n ≤ maxSpanSeconds then some (n * 1000000000) else none

/-- The span of time, in nanoseconds: the seconds alone and the total have to be within range. -/
def toSpan? (d : Duration) : Option Int := do
  let _ ← spanOfSeconds? d.seconds.toInt
  if -maxSpan ≤ d.total ∧ d.total ≤ maxSpan then some d.total else none

open Json

def record : Record Duration :=
  ((Record.field "seconds" Decoder.int64 (.default 0)).both
    (Record.field "nanos" Decoder.int32 (.default 0))).map
    fun (seconds, nanos) => { seconds, nanos }

def decoder : Decoder Duration := record.decoder "ProtoDuration"

def toJson (d : Duration) : Json :=
  .object [("seconds", .int64 d.seconds), ("nanos", .int32 d.nanos)]

end Duration
end EchoServer
