import EchoServer.Launch
import Std.Async.DNS
import Std.Async.TCP
import Std.Async.Timer
import Std.Sync.Mutex

namespace EchoServer.Program

open Connection (Clock State)
open Std (Condvar Mutex)
open Std.Async (Async AsyncTask Selectable)
open Std.Async.TCP

/-- What all connections share. -/
structure Shared where
  settings : Settings
  registry : Mutex Registry
  slots : Mutex Server.Slots
  /-- Tells the accept loop that a slot was given back. -/
  freed : Condvar
  /-- When the server was started, in nanoseconds. -/
  started : Nat

def Shared.clock (shared : Shared) : IO Clock := do
  let elapsed := (← IO.monoNanosNow) - shared.started
  let now ← Std.Time.Timestamp.now
  match Time.Timestamp.ofNanos? now.toNanosecondsSinceUnixEpoch.val with
  | some now => pure { elapsed, now }
  | none => throw (IO.userError "the clock is out of range")

/-- Lets an event happen to the slots. -/
def Shared.slotEvent (shared : Shared) (e : Server.SlotEvent) : IO Unit := do
  shared.slots.atomically (modify fun s => (s.step? e).getD s)
  shared.freed.notifyAll

def Shared.takeSlot (shared : Shared) : IO Unit :=
  shared.slots.atomicallyOnce shared.freed (do pure ((← get).step? .taken).isSome)
    (modify fun s => (s.step? .taken).getD s)

/-- What a connection waits for. -/
inductive Arrival
  | bytes (bs : List UInt8)
  | closed
  | due

def inputOf (client : Socket.Client) : Selectable Arrival :=
  .case (client.recvSelector 65536) fun
    | some bs => pure (.bytes bs.toList)
    | none => pure .closed

/-- Waits for the next thing that lets a connection move. -/
def awaitArrival (client : Socket.Client) (s : State) (elapsed : Nat) : Async Arrival := do
  match s.deadline? with
  | none => Selectable.one #[inputOf client]
  | some d =>
    let millis := (d - elapsed + 999999) / 1000000
    let sleep ← Std.Async.Selector.sleep (Std.Time.Millisecond.Offset.ofNat millis)
    let timer : Selectable Arrival := .case sleep fun _ => pure .due
    Selectable.one (if s.inbox.closed then #[timer] else #[inputOf client, timer])

/-- Serves a connection until it is over, or breaks down. -/
partial def serve (shared : Shared) (client : Socket.Client) (s : State) : IO Unit := do
  let clock ← shared.clock
  let s ← shared.registry.atomically (modifyGet fun r => Connection.settle clock (s, r))
  let bytes := s.outbox.written.flatMap fun f => Wire.encode f.toJson
  let s := { s with outbox := { s.outbox with log := [] } }
  let sent ← if bytes.isEmpty then pure true
    else try
      (client.send ⟨bytes.toArray⟩).block
      pure true
    catch _ => pure false
  if !sent then
    unless s.outbox.gone do serve shared client s.drop
  else unless s.isFinished || s.isBroken do
    match ← (awaitArrival client s clock.elapsed).block with
    | .bytes bs => serve shared client (s.receive bs)
    | .closed => serve shared client s.closeInput
    | .due => serve shared client s

partial def acceptLoop (shared : Shared) (server : Socket.Server) : IO Unit := do
  shared.takeSlot
  try
    let client ← server.accept.block
    shared.slotEvent .accepted
    let buffer := shared.settings.streamBuffer.toNat
    let work : IO Unit :=
      try serve shared client (.init buffer true)
      finally shared.slotEvent .ended
    let _ ← IO.asTask work Task.Priority.dedicated
  catch e =>
    IO.eprintln e
    shared.slotEvent .acceptFailed
  acceptLoop shared server

partial def sleepSeconds (n : Nat) : IO Unit := do
  IO.sleep (UInt32.ofNat (min n 1000000 * 1000))
  if 1000000 < n then sleepSeconds (n - 1000000)

partial def cleanupLoop (shared : Shared) : IO Unit := do
  let now := (← shared.clock).now
  shared.registry.atomically (modify fun r =>
    (Server.cleanup shared.settings.operationRetention.toNat now r).2)
  sleepSeconds (Server.cleanupSeconds shared.settings)
  cleanupLoop shared

/-- The addresses that a text names. -/
def addresses (text : String) : IO (List Std.Net.SocketAddress) := do
  let (before, after) := (text.toList.takeWhile (· ≠ ':'), text.toList.dropWhile (· ≠ ':'))
  match (Text.countOf? (String.ofList (after.drop 1))).filter (· < 65536) with
  | none => throw (IO.userError "invalid socket address")
  | some port =>
    let port := UInt16.ofNat port
    let host := String.ofList before
    let found ← match Std.Net.IPv4Addr.ofString host with
      | some ip => pure #[.v4 ip]
      | none => (Std.Async.DNS.getAddrInfo host "").block
    pure (found.toList.map fun
      | .v4 ip => .v4 ⟨ip, port⟩
      | .v6 ip => .v6 ⟨ip, port⟩)

/-- Listens at the first address that can be listened at. -/
def listenAt : List Std.Net.SocketAddress → IO Socket.Server
  | [] => throw (IO.userError "could not resolve to any address")
  | a :: rest => do
    let server ← Socket.Server.mk
    try
      server.bind a
      server.listen 1024
      pure server
    catch e => if rest.isEmpty then throw e else listenAt rest

/-- Whether the start of the server is reported at a log level. -/
def reportsStart (level : String) : Bool := ["info", "debug", "trace"].contains level.toLower

/-- Serves with these settings, or says why not. -/
def run (s : Settings) : IO Ending := do
  try
    let server ← listenAt (← addresses s.listen)
    if reportsStart s.logLevel then
      IO.println ("Server listening address=" ++ s.listen)
      (← IO.getStdout).flush
    let shared : Shared :=
      { settings := s
        registry := ← Mutex.new Registry.empty
        slots := ← Mutex.new (Server.Slots.init s.maxConnections.toNat)
        freed := ← Condvar.new
        started := ← IO.monoNanosNow }
    let _ ← IO.asTask (cleanupLoop shared) Task.Priority.dedicated
    acceptLoop shared server
    pure ⟨0, "", ""⟩
  catch e => pure (.cannotListen (toString e))

/-- The content of the settings file that the arguments name. -/
def readFile (arguments : List String) : IO (Except String (List UInt8)) :=
  match Settings.Overrides.ofArguments arguments with
  | .ok { config := some path, .. } => do
    try pure (.ok (← IO.FS.readBinFile path).toList)
    catch e => pure (.error (toString e))
  | _ => pure (.error "no file")

end EchoServer.Program

def main (arguments : List String) : IO UInt32 := do
  let content ← EchoServer.Program.readFile arguments
  let ending ← match EchoServer.launch (fun _ => content) arguments with
    | .ok s => EchoServer.Program.run s
    | .error e => pure e
  IO.print ending.output
  IO.eprint ending.complaint
  pure ending.exitCode
