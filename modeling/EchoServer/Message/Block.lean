import EchoServer.Message.Duration
import EchoServer.Status

namespace EchoServer

/-- What `Block` returns, as its caller wants it. -/
structure BlockResponse where
  content : String
  deriving DecidableEq

/-- The response of a request that asks for none. -/
def BlockResponse.default : BlockResponse := ⟨""⟩

structure BlockRequest where
  responseDelay : Duration
  error : Option Status
  success : Option BlockResponse

open Json

def BlockResponse.record : Record BlockResponse :=
  (Record.field "content" Decoder.string (.default "")).map fun content => { content }

def BlockResponse.decoder : Decoder BlockResponse := BlockResponse.record.decoder "BlockResponse"

def BlockResponse.toJson (r : BlockResponse) : Json := .object [("content", .string r.content)]

def BlockRequest.record : Record BlockRequest :=
  (((Record.field "response_delay" Duration.decoder (.default .zero)).both
    (Record.field "error" (Decoder.optional Status.decoder) (.default none))).both
    (Record.field "success" (Decoder.optional BlockResponse.decoder) (.default none))).map
    fun ((responseDelay, error), success) => { responseDelay, error, success }

def BlockRequest.decoder : Decoder BlockRequest := BlockRequest.record.decoder "BlockRequest"

def BlockRequest.toJson (r : BlockRequest) : Json :=
  .object ([("response_delay", r.responseDelay.toJson)] ++
    optionalMember "error" (r.error.map Status.toJson) ++
    optionalMember "success" (r.success.map BlockResponse.toJson))

end EchoServer
