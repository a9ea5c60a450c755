import EchoServer.Settings.Basic
import EchoServer.Text.Count

/-! The value of an option is looked at when the next option has been recognised, or at the end, so
an argument that nobody knows comes first. -/
namespace EchoServer.Settings

inductive Flag
  | config
  | listen
  | workers
  | maxConnections
  | streamBuffer
  | operationRetention
  | cleanupInterval
  | logLevel
  | help
  | version
  deriving DecidableEq

namespace Flag

def all : List Flag :=
  [config, listen, workers, maxConnections, streamBuffer, operationRetention, cleanupInterval,
    logLevel, help, version]

/-- The name after two dashes. -/
def name : Flag → String
  | config => "config"
  | listen => "listen"
  | workers => "workers"
  | maxConnections => "max-connections"
  | streamBuffer => "stream-buffer"
  | operationRetention => "operation-retention"
  | cleanupInterval => "cleanup-interval"
  | logLevel => "log-level"
  | help => "help"
  | version => "version"

/-- The letter after one dash. -/
def letter? : Flag → Option Char
  | config => some 'c'
  | listen => some 'l'
  | workers => some 'w'
  | help => some 'h'
  | version => some 'V'
  | _ => none

def purpose : Flag → String
  | config => "Path to TOML configuration file"
  | listen => "Address to bind to (e.g., 127.0.0.1:7469)"
  | workers => "Number of worker threads (defaults to number of CPU cores)"
  | maxConnections => "Maximum number of concurrent connections"
  | streamBuffer => "Outbound messages buffered per streaming call"
  | operationRetention => "Seconds a finished operation stays pollable"
  | cleanupInterval => "Interval for dropping expired operations in seconds"
  | logLevel => "Log level (trace, debug, info, warn, error)"
  | help => "Print help"
  | version => "Print version"

def takesValue : Flag → Bool
  | help => false
  | version => false
  | _ => true

def ofName? (name : List Char) : Option Flag := all.find? fun f => f.name.toList = name

def ofLetter? (letter : Char) : Option Flag := all.find? fun f => f.letter? = some letter

end Flag

/-- Why a command line gives no settings. -/
inductive Stop
  | help
  | version
  | unknownArgument (argument : String)
  | missingValue (flag : Flag)
  /-- The value is no unsigned 64-bit number. -/
  | badNumber (flag : Flag) (value : String)
  | givenTwice (flag : Flag)
  /-- A value is given to an option that has none. -/
  | surplusValue (flag : Flag) (value : String)
  deriving DecidableEq

namespace Stop

def message : Stop → String
  | help => ""
  | version => ""
  | unknownArgument a => "unexpected argument '" ++ a ++ "' found"
  | missingValue f => "a value is required for '--" ++ f.name ++ "' but none was supplied"
  | badNumber f v => "invalid value '" ++ v ++ "' for '--" ++ f.name ++ "'"
  | givenTwice f => "the argument '--" ++ f.name ++ "' cannot be used multiple times"
  | surplusValue f v => "unexpected value '" ++ v ++ "' for '--" ++ f.name ++ "' found"

end Stop

/-- Gives a text to an option that has none yet. -/
def giveText (flag : Flag) (value : String) (held : Option String) :
    Except Stop (Option String) :=
  if held.isSome then .error (.givenTwice flag) else .ok (some value)

/-- Gives a number to an option that has none yet. -/
def giveNumber (flag : Flag) (value : String) (held : Option UInt64) :
    Except Stop (Option UInt64) :=
  if held.isSome then .error (.givenTwice flag)
  else match Text.countOf? value with
    | some n =>
      if n < UInt64.size then .ok (some (UInt64.ofNat n)) else .error (.badNumber flag value)
    | none => .error (.badNumber flag value)

/-- Gives a path to an option that has none yet; a path is not empty. -/
def givePath (flag : Flag) (value : String) (held : Option String) :
    Except Stop (Option String) :=
  if held.isSome then .error (.givenTwice flag)
  else if value.isEmpty then .error (.missingValue flag)
  else .ok (some value)

namespace Overrides

def give (o : Overrides) (flag : Flag) (value : String) : Except Stop Overrides :=
  match flag with
  | .config => (givePath flag value o.config).map fun v => { o with config := v }
  | .listen => (giveText flag value o.listen).map fun v => { o with listen := v }
  | .workers => (giveNumber flag value o.workers).map fun v => { o with workers := v }
  | .maxConnections =>
    (giveNumber flag value o.maxConnections).map fun v => { o with maxConnections := v }
  | .streamBuffer =>
    (giveNumber flag value o.streamBuffer).map fun v => { o with streamBuffer := v }
  | .operationRetention =>
    (giveNumber flag value o.operationRetention).map fun v => { o with operationRetention := v }
  | .cleanupInterval =>
    (giveNumber flag value o.cleanupInterval).map fun v => { o with cleanupInterval := v }
  | .logLevel => (giveText flag value o.logLevel).map fun v => { o with logLevel := v }
  | .help => .error .help
  | .version => .error .version

end Overrides

/-- A command line that is being read: what was given, and the option whose value is still to be
looked at, if it has come. -/
structure Given where
  overrides : Overrides
  pending : Option (Flag × Option String)

namespace Given

def nothing : Given := ⟨.empty, none⟩

def settle (g : Given) : Except Stop Overrides :=
  match g.pending with
  | none => .ok g.overrides
  | some (flag, none) => .error (.missingValue flag)
  | some (flag, some value) => g.overrides.give flag value

/-- An option, with the value that is attached to it. -/
def option (g : Given) (flag : Flag) (attached : Option String) : Except Stop Given :=
  if flag.takesValue then do
    let o ← g.settle
    match attached with
    | none => pure ⟨o, some (flag, none)⟩
    | some value =>
      let o ← o.give flag value
      pure ⟨o, none⟩
  else match attached with
    | some value => .error (.surplusValue flag value)
    | none => do
      let o ← g.settle
      let o ← o.give flag ""
      pure ⟨o, none⟩

/-- An argument that starts with two dashes, which are left out of `cs`. -/
def long (g : Given) (argument : String) (cs : List Char) : Except Stop Given :=
  match Flag.ofName? (cs.takeWhile (· ≠ '=')) with
  | none => .error (.unknownArgument argument)
  | some flag => g.option flag (match cs.dropWhile (· ≠ '=') with
    | _ :: value => some (String.ofList value)
    | [] => none)

/-- An argument of a dash and a letter, and what follows the letter. An option without a value
ends the reading, so what follows it is never looked at. -/
def short (g : Given) (argument : String) (letter : Char) (cs : List Char) : Except Stop Given :=
  match Flag.ofLetter? letter with
  | none => .error (.unknownArgument argument)
  | some flag => g.option flag (if flag.takesValue then match cs with
    | '=' :: value => some (String.ofList value)
    | [] => none
    | value => some (String.ofList value)
    else none)

/-- An argument that may be the value of the option before it. -/
def plain (g : Given) (argument : String) : Except Stop Given :=
  match g.pending with
  | some (flag, none) => .ok { g with pending := some (flag, some argument) }
  | _ => .error (.unknownArgument argument)

def argument (g : Given) (a : String) : Except Stop Given :=
  match a.toList with
  | '-' :: '-' :: cs => g.long a cs
  | '-' :: letter :: cs => g.short a letter cs
  | _ => g.plain a

end Given

/-- Reads arguments on. Two dashes alone end the options, and there is nothing behind these. -/
def readArguments (g : Given) : List String → Except Stop Overrides
  | [] => g.settle
  | a :: rest =>
    if a = "--" then
      match rest with
      | [] => g.settle
      | b :: _ => .error (.unknownArgument b)
    else match g.argument a with
      | .ok g => readArguments g rest
      | .error s => .error s

def Overrides.ofArguments (arguments : List String) : Except Stop Overrides :=
  readArguments .nothing arguments

end EchoServer.Settings
