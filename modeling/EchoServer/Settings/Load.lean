import EchoServer.Settings.CommandLine
import EchoServer.Settings.File
import EchoServer.Text.Utf8
import EchoServer.Toml.Reader

namespace EchoServer.Settings

/-- Why the settings file at a path gives no settings. -/
inductive LoadError
  /-- It cannot be read as text. -/
  | unreadable (path : String) (reason : String)
  | malformed (path : String) (reason : FileError)
  deriving DecidableEq

def LoadError.message : LoadError → String
  | unreadable path reason => "Failed to read config file '" ++ path ++ "': " ++ reason
  | malformed path reason => "Failed to parse config file '" ++ path ++ "': " ++ reason.message

/-- What the file at a path gives, of which this is the content. -/
def FromFile.ofContent (path : String) (content : Except String (List UInt8)) :
    Except LoadError FromFile :=
  match content with
  | .error reason => .error (.unreadable path reason)
  | .ok bytes => match Text.decodeUtf8? bytes with
    | none => .error (.unreadable path "stream did not contain valid UTF-8")
    | some text => match Toml.read? text with
      | none => .error (.malformed path .notToml)
      | some document => match FromFile.ofDocument document with
        | .ok f => .ok f
        | .error e => .error (.malformed path e)

/-- Why there are no settings. -/
inductive Refusal
  | commandLine (s : Stop)
  | file (e : LoadError)
  deriving DecidableEq

/-- The settings of a command line, where `files` has the content of every file. -/
def load (files : String → Except String (List UInt8)) (arguments : List String) :
    Except Refusal Settings :=
  match Overrides.ofArguments arguments with
  | .error s => .error (.commandLine s)
  | .ok o => match o.config with
    | none => .ok (resolve o .empty)
    | some path => match FromFile.ofContent path (files path) with
      | .ok f => .ok (resolve o f)
      | .error e => .error (.file e)

end EchoServer.Settings
