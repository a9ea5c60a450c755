import EchoServer.Message.Duration
import EchoServer.Status

namespace EchoServer

/-- What a finished operation holds, as its caller wants it. -/
structure WaitResponse where
  content : String
  deriving DecidableEq

/-- The response of a request that asks for none. -/
def WaitResponse.default : WaitResponse := ⟨""⟩

structure WaitRequest where
  /-- When the operation is done; it takes precedence over `ttl`. -/
  endTime : Option Time.Timestamp
  /-- How long the operation takes. -/
  ttl : Option Duration
  error : Option Status
  success : Option WaitResponse

/-- How an operation ended. -/
inductive OperationResult
  | error (status : Status)
  | response (r : WaitResponse)

/-- The state of an operation. -/
structure Operation where
  name : String
  done : Bool
  endTime : Time.Timestamp
  /-- There is none as long as the operation runs. -/
  result : Option OperationResult

structure GetOperationRequest where
  name : String
  deriving DecidableEq

open Json

def WaitResponse.record : Record WaitResponse :=
  (Record.field "content" Decoder.string (.default "")).map fun content => { content }

def WaitResponse.decoder : Decoder WaitResponse := WaitResponse.record.decoder "WaitResponse"

def WaitResponse.toJson (r : WaitResponse) : Json := .object [("content", .string r.content)]

/-- A point in time, spelled as text. -/
def timeJson (t : Time.Timestamp) : Json := .string (String.ofList (Time.Rfc3339.write t))

def WaitRequest.record : Record WaitRequest :=
  ((((Record.field "end_time" (Decoder.optional Decoder.timestamp) (.default none)).both
    (Record.field "ttl" (Decoder.optional Duration.decoder) (.default none))).both
    (Record.field "error" (Decoder.optional Status.decoder) (.default none))).both
    (Record.field "success" (Decoder.optional WaitResponse.decoder) (.default none))).map
    fun (((endTime, ttl), error), success) => { endTime, ttl, error, success }

def WaitRequest.decoder : Decoder WaitRequest := WaitRequest.record.decoder "WaitRequest"

def WaitRequest.toJson (r : WaitRequest) : Json :=
  .object (optionalMember "end_time" (r.endTime.map timeJson) ++
    optionalMember "ttl" (r.ttl.map Duration.toJson) ++
    optionalMember "error" (r.error.map Status.toJson) ++
    optionalMember "success" (r.success.map WaitResponse.toJson))

namespace OperationResult

/-- A result: an object whose only member is called `error` or `response`. -/
def decoder : Decoder OperationResult :=
  Decoder.variant ["error", "response"] fun name p content =>
    match content with
    | none => .error (.wrongType .unitVariant .newtypeVariant)
    | some d =>
      if name = "error" then (Status.decoder p d).map .error
      else (WaitResponse.decoder p d).map .response

def toJson : OperationResult → Json
  | error s => .object [("error", s.toJson)]
  | response r => .object [("response", r.toJson)]

end OperationResult

/-- The part of an operation that its name `metadata` is given to. -/
def Operation.metadataRecord : Record Time.Timestamp :=
  Record.field "end_time" Decoder.timestamp .required

def Operation.record : Record Operation :=
  ((((Record.field "name" Decoder.string .required).both
    (Record.field "done" Decoder.bool .required)).both
    (Record.field "metadata" (metadataRecord.decoder "WaitMetadata") .required)).both
    (Record.field "result" (Decoder.optional OperationResult.decoder)
      ⟨some none, none⟩)).map
    fun (((name, done), endTime), result) => { name, done, endTime, result }

def Operation.decoder : Decoder Operation := Operation.record.decoder "Operation"

def Operation.toJson (o : Operation) : Json :=
  .object ([("name", .string o.name), ("done", .bool o.done),
    ("metadata", .object [("end_time", timeJson o.endTime)])] ++
    optionalMember "result" (o.result.map OperationResult.toJson))

def GetOperationRequest.record : Record GetOperationRequest :=
  (Record.field "name" Decoder.string (.default "")).map fun name => { name }

def GetOperationRequest.decoder : Decoder GetOperationRequest :=
  GetOperationRequest.record.decoder "GetOperationRequest"

def GetOperationRequest.toJson (r : GetOperationRequest) : Json :=
  .object [("name", .string r.name)]

end EchoServer
