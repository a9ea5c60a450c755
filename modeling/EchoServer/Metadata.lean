import EchoServer.Json.Record

namespace EchoServer

/-- An ordered list of pairs of a key and a value. -/
structure Metadata where
  entries : List (String × String)
  deriving DecidableEq

namespace Metadata

def empty : Metadata := ⟨[]⟩

/-- `s` with its ASCII capitals in lower case. -/
def lowerAscii (s : String) : String := String.ofList (s.toList.map Char.toLower)

/-- Whether two keys are equal up to the case of ASCII letters. -/
def sameKey (k l : String) : Bool := lowerAscii k = lowerAscii l

def insert (m : Metadata) (key value : String) : Metadata :=
  ⟨m.entries ++ [(lowerAscii key, value)]⟩

/-- The pairs of a list, inserted in order. -/
def ofList (pairs : List (String × String)) : Metadata :=
  pairs.foldl (fun m p => m.insert p.1 p.2) empty

/-- The values of a key, in order. -/
def getAll (m : Metadata) (key : String) : List String :=
  (m.entries.filter fun p => sameKey p.1 key).map (·.2)

def isEmpty (m : Metadata) : Bool := m.entries.isEmpty

def size (m : Metadata) : Nat := m.entries.length

/-- The key whose values come back as trailers. -/
def trailerKey : String := "showcase-trailer"

/-- `trailers` and behind them a pair for each inbound value of `trailerKey`. -/
def echoTrailers (inbound trailers : Metadata) : Metadata :=
  (inbound.getAll trailerKey).foldl (fun m v => m.insert trailerKey v) trailers

/-- Metadata, spelled as a list of pairs. -/
def decoder : Json.Decoder Metadata := fun p d => do
  let pairs ← Json.Decoder.list (Json.Decoder.pair Json.Decoder.string Json.Decoder.string) p d
  pure ⟨pairs⟩

def toJson (m : Metadata) : Json :=
  .array (m.entries.map fun p => .array [.string p.1, .string p.2])

end Metadata
end EchoServer
