import EchoServer.Server.Basic
import EchoServer.Settings.Load

namespace EchoServer

/-- What the program leaves behind. -/
structure Ending where
  exitCode : UInt32
  output : String
  complaint : String
  deriving DecidableEq

namespace Ending

def programName : String := "echo-showcase"

def versionText : String := programName ++ " 0.1.0\n"

/-- The line of the help text for an option. -/
def helpLine (f : Settings.Flag) : String :=
  let letter := match f.letter? with
    | some c => "  -" ++ String.singleton c ++ ", "
    | none => "      "
  let value := if f.takesValue then " <VALUE>" else ""
  letter ++ "--" ++ f.name ++ value ++ "\n          " ++ f.purpose ++ "\n"

def helpText : String :=
  "A conformance echo server for RPC client libraries\n\nUsage: " ++ programName ++
    " [OPTIONS]\n\nOptions:\n" ++ String.join (Settings.Flag.all.map helpLine)

/-- How the program ends without settings. -/
def ofRefusal : Settings.Refusal → Ending
  | .commandLine .help => ⟨0, helpText, ""⟩
  | .commandLine .version => ⟨0, versionText, ""⟩
  | .commandLine s => ⟨2, "", "error: " ++ s.message ++ "\n"⟩
  | .file e => ⟨1, "", "Error: " ++ e.message ++ "\n"⟩

/-- How the program ends that cannot be set up with its settings. -/
def tooLarge (what : String) : Ending := ⟨101, "", "too many " ++ what ++ "\n"⟩

/-- How the program ends that cannot listen at its address. -/
def cannotListen (reason : String) : Ending := ⟨1, "", "Error: " ++ reason ++ "\n"⟩

end Ending

/-- The most workers that can be set up, `2 ^ 60 - 1`: a machine word addresses no larger table of
them. -/
def maxWorkers : Nat := 1152921504606846975

/-- The settings to serve with, if they can be set up. -/
def checkLimits (s : Settings) : Except Ending Settings :=
  if s.workers.any fun n => maxWorkers < n.toNat then .error (.tooLarge "workers")
  else if Server.CanStart s then .ok s
  else .error (.tooLarge "connections")

/-- What the program does with its arguments, where `files` has the content of every file. -/
def launch (files : String → Except String (List UInt8)) (arguments : List String) :
    Except Ending Settings :=
  match Settings.load files arguments with
  | .ok s => checkLimits s
  | .error r => .error (.ofRefusal r)

end EchoServer
