import EchoServer.Settings.Basic
import EchoServer.Toml.Basic

namespace EchoServer.Settings

open Toml (Value)

/-- Why a document gives no settings. -/
inductive FileError
  | notToml
  /-- A section is neither a table nor an array. -/
  | badSection (name : String)
  /-- A setting is no text, or no unsigned number. -/
  | badSetting (name : String)
  /-- An array of settings ends too early. -/
  | shortSection (name : String)
  deriving DecidableEq

def FileError.message : FileError → String
  | notToml => "TOML parse error"
  | badSection name => "section " ++ name ++ " is not a table"
  | badSetting name => "setting " ++ name ++ " has a wrong type"
  | shortSection name => "section " ++ name ++ " is too short"

/-- The settings of a section, by name or by position. -/
inductive Section
  | named (entries : List (String × Value))
  | listed (items : List Value)

namespace Section

/-- The section that a value is. A moment is a table of which nobody knows the settings. -/
def ofValue? : Value → Option Section
  | .table entries => some (.named entries)
  | .moment _ => some (.named [])
  | .array items => some (.listed items)
  | _ => none

/-- The section of a name in a document; it may be left out. -/
def ofDocument (document : List (String × Value)) (name : String) : Except FileError Section :=
  match document.lookup name with
  | none => .ok (.named [])
  | some v => match ofValue? v with
    | some s => .ok s
    | none => .error (.badSection name)

/-- The value of a setting, by its name or its position. -/
def get? (s : Section) (name : String) (position : Nat) : Option Value :=
  match s with
  | .named entries => entries.lookup name
  | .listed items => items[position]?

def text (s : Section) (name : String) (position : Nat) : Except FileError (Option String) :=
  match s.get? name position with
  | none => .ok none
  | some (.string t) => .ok (some t)
  | some _ => .error (.badSetting name)

def number (s : Section) (name : String) (position : Nat) : Except FileError (Option UInt64) :=
  match s.get? name position with
  | none => .ok none
  | some (.integer n) =>
    if n.toInt < 0 then .error (.badSetting name) else .ok (some (UInt64.ofNat n.toInt.toNat))
  | some _ => .error (.badSetting name)

/-- A section whose settings up to a position may not be left out of an array. -/
def reaching (s : Section) (name : String) (position : Nat) : Except FileError Unit :=
  match s with
  | .named _ => .ok ()
  | .listed items => if position < items.length then .ok () else .error (.shortSection name)

end Section

/-- The settings that a document gives. The number of workers has no default, so an array has to
reach it. -/
def FromFile.ofDocument (document : List (String × Value)) : Except FileError FromFile := do
  let server ← Section.ofDocument document "server"
  let operations ← Section.ofDocument document "operations"
  let logging ← Section.ofDocument document "logging"
  let listen ← server.text "listen" 0
  let workers ← server.number "workers" 1
  server.reaching "server" 1
  let maxConnections ← server.number "max_connections" 2
  let streamBuffer ← server.number "stream_buffer" 3
  let operationRetention ← operations.number "retention" 0
  let cleanupInterval ← operations.number "cleanup_interval" 1
  let logLevel ← logging.text "level" 0
  pure { listen, workers, maxConnections, streamBuffer, operationRetention, cleanupInterval,
         logLevel }

end EchoServer.Settings
