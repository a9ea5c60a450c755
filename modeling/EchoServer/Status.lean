import EchoServer.Json.Record

namespace EchoServer

inductive Code
  | ok
  | cancelled
  | unknown
  | invalidArgument
  | deadlineExceeded
  | notFound
  | alreadyExists
  | permissionDenied
  | resourceExhausted
  | failedPrecondition
  | aborted
  | outOfRange
  | unimplemented
  | internal
  | unavailable
  | dataLoss
  | unauthenticated
  deriving DecidableEq

namespace Code

/-- The codes in the order of their numbers. -/
def all : List Code :=
  [ok, cancelled, unknown, invalidArgument, deadlineExceeded, notFound, alreadyExists,
    permissionDenied, resourceExhausted, failedPrecondition, aborted, outOfRange, unimplemented,
    internal, unavailable, dataLoss, unauthenticated]

def toInt32 (c : Code) : Int32 := Int32.ofNat (all.idxOf c)

/-- The code of a number; a number without a code is unknown. -/
def ofInt32 (n : Int32) : Code :=
  if n.toInt < 0 then unknown else (all[n.toInt.toNat]?).getD unknown

def isOk (c : Code) : Bool := c = ok

def name : Code → String
  | ok => "OK"
  | cancelled => "CANCELLED"
  | unknown => "UNKNOWN"
  | invalidArgument => "INVALID_ARGUMENT"
  | deadlineExceeded => "DEADLINE_EXCEEDED"
  | notFound => "NOT_FOUND"
  | alreadyExists => "ALREADY_EXISTS"
  | permissionDenied => "PERMISSION_DENIED"
  | resourceExhausted => "RESOURCE_EXHAUSTED"
  | failedPrecondition => "FAILED_PRECONDITION"
  | aborted => "ABORTED"
  | outOfRange => "OUT_OF_RANGE"
  | unimplemented => "UNIMPLEMENTED"
  | internal => "INTERNAL"
  | unavailable => "UNAVAILABLE"
  | dataLoss => "DATA_LOSS"
  | unauthenticated => "UNAUTHENTICATED"

end Code

/-- An opaque detail of a status. -/
structure Detail where
  typeUrl : String
  value : Json

/-- How a call ends: a code, a text and details. -/
structure Status where
  code : Code
  message : String
  details : List Detail

namespace Status

def of (code : Code) (message : String) : Status := ⟨code, message, []⟩

def ok : Status := of .ok ""

/-- A status in one line. -/
def display (s : Status) : String := s.code.name ++ ": " ++ s.message

/-- The failure that a request asks for, if it asks for one. -/
def resolve : Option Status → Except Status Unit
  | some s => if s.code.isOk then .ok () else .error s
  | none => .ok ()

end Status

open Json

/-- A detail, spelled as a record. -/
def Detail.record : Record Detail :=
  ((Record.field "type_url" Decoder.string .required).both
    (Record.field "value" Decoder.json (.default .null))).map
    fun (typeUrl, value) => { typeUrl, value }

/-- A code, spelled as its number. -/
def Code.decoder : Decoder Code := fun p d => do
  let n ← Decoder.int32 p d
  pure (Code.ofInt32 n)

/-- A status, spelled as a record. -/
def Status.record : Record Status :=
  (((Record.field "code" Code.decoder .required).both
    (Record.field "message" Decoder.string (.default ""))).both
    (Record.field "details" (Decoder.list (Detail.record.decoder "Detail")) (.default []))).map
    fun ((code, message), details) => { code, message, details }

def Status.decoder : Decoder Status := Status.record.decoder "Status"

def Detail.toJson (d : Detail) : Json :=
  .object [("type_url", .string d.typeUrl), ("value", d.value)]

/-- A status as a value; details are left out if there are none. -/
def Status.toJson (s : Status) : Json :=
  .object ([("code", .int32 s.code.toInt32), ("message", .string s.message)] ++
    if s.details.isEmpty then [] else [("details", .array (s.details.map Detail.toJson))])

end EchoServer
