namespace EchoServer

def echoService : String := "google.showcase.v1beta1.Echo"

/-- The service of `GetOperation`. -/
def operationsService : String := "google.longrunning.Operations"

inductive Method
  | echo
  | expand
  | collect
  | chat
  | pagedExpand
  | pagedExpandLegacy
  | block
  | wait
  | getOperation
  deriving DecidableEq

namespace Method

def all : List Method :=
  [echo, expand, collect, chat, pagedExpand, pagedExpandLegacy, block, wait, getOperation]

def name : Method → String
  | echo => "Echo"
  | expand => "Expand"
  | collect => "Collect"
  | chat => "Chat"
  | pagedExpand => "PagedExpand"
  | pagedExpandLegacy => "PagedExpandLegacy"
  | block => "Block"
  | wait => "Wait"
  | getOperation => "GetOperation"

def service : Method → String
  | getOperation => operationsService
  | _ => echoService

/-- What stands before and after the last slash, if there is one. -/
def splitLast : List Char → Option (List Char × List Char)
  | [] => none
  | c :: cs =>
    match splitLast cs with
    | some (front, back) => some (c :: front, back)
    | none => if c = '/' then some ([], cs) else none

def ofName? (name : List Char) : Option Method := all.find? fun m => m.name.toList = name

def ofPath? (path : String) : Option Method :=
  let cs := match path.toList with
    | '/' :: cs => cs
    | cs => cs
  match splitLast cs with
  | none => ofName? cs
  | some (front, back) => (ofName? back).filter fun m => m.service.toList = front

end Method
end EchoServer
