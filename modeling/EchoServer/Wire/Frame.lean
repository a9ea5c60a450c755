import EchoServer.Metadata
import EchoServer.Status

namespace EchoServer

inductive ClientFrame
  | call (method : String) (metadata : Metadata)
  | message (body : Json)
  | halfClose
  | cancel

inductive ServerFrame
  | message (body : Json)
  | trailers (status : Status) (trailers : Metadata)

open Json

/-- The body of a message, spelled as a record. -/
def bodyRecord : Record Json := Record.field "body" Decoder.json .required

namespace ClientFrame

def callRecord : Record (String × Metadata) :=
  (Record.field "method" Decoder.string .required).both
    (Record.field "metadata" Metadata.decoder (.default .empty))

def kinds : List String := ["call", "message", "half_close", "cancel"]

def decoder : Decoder ClientFrame :=
  Decoder.tagged "ClientFrame" kinds fun kind d =>
    if kind = "call" then
      (Decoder.variantRecord "ClientFrame::Call" callRecord d).map fun (m, md) => call m md
    else if kind = "message" then
      (Decoder.variantRecord "ClientFrame::Message" bodyRecord d).map message
    else if kind = "half_close" then Decoder.variantUnit halfClose d
    else Decoder.variantUnit cancel d

def toJson : ClientFrame → Json
  | call method metadata => .object [("type", .string "call"), ("method", .string method),
      ("metadata", metadata.toJson)]
  | message body => .object [("type", .string "message"), ("body", body)]
  | halfClose => .object [("type", .string "half_close")]
  | cancel => .object [("type", .string "cancel")]

end ClientFrame

namespace ServerFrame

def trailersRecord : Record (Status × Metadata) :=
  (Record.field "status" Status.decoder .required).both
    (Record.field "trailers" Metadata.decoder (.default .empty))

def kinds : List String := ["message", "trailers"]

def decoder : Decoder ServerFrame :=
  Decoder.tagged "ServerFrame" kinds fun kind d =>
    if kind = "message" then
      (Decoder.variantRecord "ServerFrame::Message" bodyRecord d).map message
    else
      (Decoder.variantRecord "ServerFrame::Trailers" trailersRecord d).map
        fun (s, md) => .trailers s md

/-- A frame as a value; empty trailers are left out. -/
def toJson : ServerFrame → Json
  | message body => .object [("type", .string "message"), ("body", body)]
  | trailers status md => .object ([("type", .string "trailers"), ("status", status.toJson)] ++
      if md.isEmpty then [] else [("trailers", md.toJson)])

end ServerFrame
end EchoServer
