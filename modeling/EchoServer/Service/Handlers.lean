import EchoServer.Message.Block
import EchoServer.Message.Echo
import EchoServer.Operation.Registry
import EchoServer.Paging
import EchoServer.Service.Outcome
import EchoServer.Text.Words

namespace EchoServer.Service

open Time (Timestamp)

def streamClosed : Status := .of .cancelled "response stream closed"

def cancelledInDelay : Status := .of .cancelled "call cancelled while blocking"

/-- `Echo`: content and severity come back. -/
def echo (metadata : Metadata) (r : EchoRequest) : Outcome EchoResponse :=
  .of metadata do
    Status.resolve r.error
    pure { content := r.content, severity := r.severity }

/-- The responses of `Expand`: one for each word. -/
def expandResponses (r : EchoRequest) : List EchoResponse :=
  (Text.words r.content).map EchoResponse.ofContent

/-- How `Expand` ends after its last response. -/
def expandVerdict (r : EchoRequest) : Except Status Unit := Status.resolve r.error

/-- Sends responses to a receiver that takes so many before it goes away (`none`: all of them):
what it takes, and how the handler ends. -/
def sendAll (room : Option Nat) (responses : List EchoResponse) (verdict : Except Status Unit) :
    List EchoResponse × Except Status Unit :=
  match room with
  | none => (responses, verdict)
  | some n =>
    (responses.take n, if n < responses.length then .error streamClosed else verdict)

/-- `Expand`: the words of the content, and then the error asked for. -/
def expand (metadata : Metadata) (room : Option Nat) (r : EchoRequest) :
    List EchoResponse × Outcome Unit :=
  let (taken, result) := sendAll room (expandResponses r) (expandVerdict r)
  (taken, .of metadata result)

/-- `Collect` takes a request: its content is kept unless it is empty. -/
def collectStep (contents : List String) (r : EchoRequest) : Except Status (List String) := do
  Status.resolve r.error
  pure (if r.content.isEmpty then contents else contents ++ [r.content])

def collectResponse (contents : List String) : EchoResponse :=
  .ofContent (Text.joinWords contents)

/-- `Collect`: the contents of all requests in one response. A failure in the stream of requests
is the failure of the call. -/
def collect (metadata : Metadata) (requests : List (Except Status EchoRequest)) :
    Outcome EchoResponse :=
  .of metadata do
    let contents ← requests.foldlM (fun acc item => item.bind (collectStep acc)) []
    pure (collectResponse contents)

/-- `Chat` takes a request: its content comes back. -/
def chatStep (r : EchoRequest) : Except Status EchoResponse := do
  Status.resolve r.error
  pure (.ofContent r.content)

/-- `Chat` with a receiver that takes so many responses before it goes away: what it takes, and
how the handler ends. -/
def chatResponses (room : Option Nat) :
    List (Except Status EchoRequest) → List EchoResponse × Except Status Unit
  | [] => ([], .ok ())
  | item :: rest =>
    match item.bind chatStep with
    | .error s => ([], .error s)
    | .ok response =>
      if room = some 0 then ([], .error streamClosed)
      else
        let (taken, result) := chatResponses (room.map (· - 1)) rest
        (response :: taken, result)

/-- `Chat`: each request is echoed as it comes. -/
def chat (metadata : Metadata) (room : Option Nat) (requests : List (Except Status EchoRequest)) :
    List EchoResponse × Outcome Unit :=
  let (taken, result) := chatResponses room requests
  (taken, .of metadata result)

/-- `PagedExpand`: one page of the words of the content. -/
def pagedExpand (metadata : Metadata) (r : PagedExpandRequest) : Outcome PagedExpandResponse :=
  let words := Text.words r.content
  .of metadata do
    let page ← Page.select words.length r.pageSize.toInt r.pageToken
    pure { responses := (page.slice words).map EchoResponse.ofContent,
           nextPageToken := page.nextToken }

/-- `PagedExpandLegacy`: the same, by the older request. -/
def pagedExpandLegacy (metadata : Metadata) (r : PagedExpandLegacyRequest) :
    Outcome PagedExpandResponse :=
  pagedExpand metadata r.toPaged

/-- What `Block` comes to after its delay. -/
def blockVerdict (r : BlockRequest) : Except Status BlockResponse := do
  Status.resolve r.error
  pure (r.success.getD .default)

/-- `Block` with a caller that cancels so many nanoseconds after the start, if ever. Without a
delay there is nothing to cancel. -/
def block (metadata : Metadata) (cancelAt : Option Nat) (r : BlockRequest) :
    Outcome BlockResponse :=
  let cut := match cancelAt with
    | some t => decide (t < r.responseDelay.toDelay)
    | none => false
  if cut then .fail cancelledInDelay else .of metadata (blockVerdict r)

def wait (metadata : Metadata) (now : Timestamp) (r : WaitRequest) (registry : Registry) :
    Outcome Operation × Registry :=
  let (operation, registry) := registry.wait r now
  (.of metadata (.ok operation), registry)

def getOperation (metadata : Metadata) (now : Timestamp) (name : String) (registry : Registry) :
    Outcome Operation :=
  .of metadata (registry.get name now)

end EchoServer.Service
