import EchoServer.Status

namespace EchoServer

/-- A tag that is carried along untouched. -/
inductive Severity
  | unnecessary
  | necessary
  | urgent
  | critical
  deriving DecidableEq

/-- The request of `Echo`, `Expand`, `Collect` and `Chat`. -/
structure EchoRequest where
  content : String
  severity : Severity
  error : Option Status

structure EchoResponse where
  content : String
  severity : Severity
  deriving DecidableEq

/-- A response with nothing but content. -/
def EchoResponse.ofContent (content : String) : EchoResponse := ⟨content, .unnecessary⟩

structure PagedExpandRequest where
  content : String
  pageSize : Int32
  pageToken : String
  deriving DecidableEq

/-- The older form of `PagedExpandRequest`. -/
structure PagedExpandLegacyRequest where
  content : String
  maxResults : Int32
  pageToken : String
  deriving DecidableEq

/-- The request that an older one stands for. -/
def PagedExpandLegacyRequest.toPaged (r : PagedExpandLegacyRequest) : PagedExpandRequest :=
  { content := r.content, pageSize := r.maxResults, pageToken := r.pageToken }

structure PagedExpandResponse where
  responses : List EchoResponse
  nextPageToken : String
  deriving DecidableEq

open Json

namespace Severity

def name : Severity → String
  | unnecessary => "UNNECESSARY"
  | necessary => "NECESSARY"
  | urgent => "URGENT"
  | critical => "CRITICAL"

def all : List Severity := [unnecessary, necessary, urgent, critical]

def ofName (s : String) : Severity := (all.find? (·.name = s)).getD unnecessary

/-- A severity: its name, or an object with its name and null. -/
def decoder : Decoder Severity :=
  Decoder.variant (all.map name) fun s p content =>
    match content with
    | none => .ok (ofName s)
    | some d => (Decoder.unit p d).map fun _ => ofName s

def toJson (s : Severity) : Json := .string s.name

end Severity

def EchoRequest.record : Record EchoRequest :=
  (((Record.field "content" Decoder.string (.default "")).both
    (Record.field "severity" Severity.decoder (.default .unnecessary))).both
    (Record.field "error" (Decoder.optional Status.decoder) (.default none))).map
    fun ((content, severity), error) => { content, severity, error }

def EchoRequest.decoder : Decoder EchoRequest := EchoRequest.record.decoder "EchoRequest"

def EchoRequest.toJson (r : EchoRequest) : Json :=
  .object ([("content", .string r.content), ("severity", r.severity.toJson)] ++
    optionalMember "error" (r.error.map Status.toJson))

def EchoResponse.record : Record EchoResponse :=
  ((Record.field "content" Decoder.string (.default "")).both
    (Record.field "severity" Severity.decoder (.default .unnecessary))).map
    fun (content, severity) => { content, severity }

def EchoResponse.decoder : Decoder EchoResponse := EchoResponse.record.decoder "EchoResponse"

def EchoResponse.toJson (r : EchoResponse) : Json :=
  .object [("content", .string r.content), ("severity", r.severity.toJson)]

def PagedExpandRequest.record : Record PagedExpandRequest :=
  (((Record.field "content" Decoder.string (.default "")).both
    (Record.field "page_size" Decoder.int32 (.default 0))).both
    (Record.field "page_token" Decoder.string (.default ""))).map
    fun ((content, pageSize), pageToken) => { content, pageSize, pageToken }

def PagedExpandRequest.decoder : Decoder PagedExpandRequest :=
  PagedExpandRequest.record.decoder "PagedExpandRequest"

def PagedExpandRequest.toJson (r : PagedExpandRequest) : Json :=
  .object [("content", .string r.content), ("page_size", .int32 r.pageSize),
    ("page_token", .string r.pageToken)]

def PagedExpandLegacyRequest.record : Record PagedExpandLegacyRequest :=
  (((Record.field "content" Decoder.string (.default "")).both
    (Record.field "max_results" Decoder.int32 (.default 0))).both
    (Record.field "page_token" Decoder.string (.default ""))).map
    fun ((content, maxResults), pageToken) => { content, maxResults, pageToken }

def PagedExpandLegacyRequest.decoder : Decoder PagedExpandLegacyRequest :=
  PagedExpandLegacyRequest.record.decoder "PagedExpandLegacyRequest"

def PagedExpandLegacyRequest.toJson (r : PagedExpandLegacyRequest) : Json :=
  .object [("content", .string r.content), ("max_results", .int32 r.maxResults),
    ("page_token", .string r.pageToken)]

def PagedExpandResponse.record : Record PagedExpandResponse :=
  ((Record.field "responses" (Decoder.list EchoResponse.decoder) (.default [])).both
    (Record.field "next_page_token" Decoder.string (.default ""))).map
    fun (responses, nextPageToken) => { responses, nextPageToken }

def PagedExpandResponse.decoder : Decoder PagedExpandResponse :=
  PagedExpandResponse.record.decoder "PagedExpandResponse"

def PagedExpandResponse.toJson (r : PagedExpandResponse) : Json :=
  .object [("responses", .array (r.responses.map EchoResponse.toJson)),
    ("next_page_token", .string r.nextPageToken)]

end EchoServer
