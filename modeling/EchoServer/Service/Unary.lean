import EchoServer.Method
import EchoServer.Service.Handlers

namespace EchoServer.Service

open Json (Decoder)
open Time (Timestamp)

def undecodable (e : Json.DecodeError) : Status :=
  .of .internal ("failed to decode request message: " ++ e.message)

def decodeRequest {α : Type} (item : Decoder α) (body : Json) : Except Status α :=
  match item.ofJson body with
  | .ok r => .ok r
  | .error e => .error (undecodable e)

def responseBody (v : Json) : Json := v.canonical

def notUnary (m : Method) : Status :=
  .of .internal (m.name ++ " is a streaming method")

/-- What a call with one request comes to at once, or the delay that comes before it. -/
inductive Answer
  | done (o : Outcome Json)
  | delayed (delay : Nat) (r : BlockRequest)

/-- The answer of a handler to a request in `body`. -/
def answer {α β : Type} (item : Decoder α) (body : Json) (handler : α → Outcome β)
    (encode : β → Json) : Answer :=
  match decodeRequest item body with
  | .error s => .done (.fail s)
  | .ok r => .done ((handler r).map fun b => responseBody (encode b))

/-- The outcome of `Block` after its delay. -/
def blockOutcome (metadata : Metadata) (r : BlockRequest) : Outcome Json :=
  (block metadata none r).map fun b => responseBody b.toJson

/-- Starts the work of a call with one request. -/
def start (m : Method) (metadata : Metadata) (body : Json) (now : Timestamp)
    (registry : Registry) : Answer × Registry :=
  match m with
  | .echo =>
    (answer EchoRequest.decoder body (echo metadata) EchoResponse.toJson, registry)
  | .pagedExpand =>
    (answer PagedExpandRequest.decoder body (pagedExpand metadata)
      PagedExpandResponse.toJson, registry)
  | .pagedExpandLegacy =>
    (answer PagedExpandLegacyRequest.decoder body (pagedExpandLegacy metadata)
      PagedExpandResponse.toJson, registry)
  | .getOperation =>
    (answer GetOperationRequest.decoder body
      (fun r => getOperation metadata now r.name registry) Operation.toJson, registry)
  | .wait =>
    match decodeRequest WaitRequest.decoder body with
    | .error s => (.done (.fail s), registry)
    | .ok r =>
      let (o, registry) := wait metadata now r registry
      (.done (o.map fun op => responseBody op.toJson), registry)
  | .block =>
    match decodeRequest BlockRequest.decoder body with
    | .error s => (.done (.fail s), registry)
    | .ok r =>
      let delay := r.responseDelay.toDelay
      if delay = 0 then (.done (blockOutcome metadata r), registry)
      else (.delayed delay r, registry)
  | .expand | .collect | .chat => (.done (.fail (notUnary m)), registry)

end EchoServer.Service
