/-! The command line comes before the settings file, and that before the defaults. A log level that
is the default one counts as not given. -/
namespace EchoServer

structure Settings where
  listen : String
  /-- How many threads do the work; one for each processor if there is no number. -/
  workers : Option UInt64
  /-- How many connections are served at a time. -/
  maxConnections : UInt64
  /-- How many responses of a stream may wait to be written. -/
  streamBuffer : UInt64
  /-- How many seconds an operation is kept after its end. -/
  operationRetention : UInt64
  /-- How many seconds lie between two cleanups of the operations. -/
  cleanupInterval : UInt64
  logLevel : String
  deriving DecidableEq

namespace Settings

/-- The settings that a command line gives. -/
structure Overrides where
  /-- The path of the settings file. -/
  config : Option String
  listen : Option String
  workers : Option UInt64
  maxConnections : Option UInt64
  streamBuffer : Option UInt64
  operationRetention : Option UInt64
  cleanupInterval : Option UInt64
  logLevel : Option String
  deriving DecidableEq

def Overrides.empty : Overrides := ⟨none, none, none, none, none, none, none, none⟩

/-- The settings that a file gives. -/
structure FromFile where
  listen : Option String
  workers : Option UInt64
  maxConnections : Option UInt64
  streamBuffer : Option UInt64
  operationRetention : Option UInt64
  cleanupInterval : Option UInt64
  logLevel : Option String
  deriving DecidableEq

def FromFile.empty : FromFile := ⟨none, none, none, none, none, none, none⟩

/-- The settings where nothing is given. -/
def default : Settings :=
  { listen := "127.0.0.1:7469", workers := none, maxConnections := 10000, streamBuffer := 16,
    operationRetention := 3600, cleanupInterval := 60, logLevel := "info" }

/-- A limit that lets something through. -/
def atLeastOne (n : UInt64) : UInt64 := if n = 0 then 1 else n

/-- The settings of a command line and a file. -/
def resolve (o : Overrides) (f : FromFile) : Settings where
  listen := (o.listen.or f.listen).getD default.listen
  workers := o.workers.or f.workers
  maxConnections :=
    atLeastOne ((o.maxConnections.or f.maxConnections).getD default.maxConnections)
  streamBuffer := atLeastOne ((o.streamBuffer.or f.streamBuffer).getD default.streamBuffer)
  operationRetention :=
    (o.operationRetention.or f.operationRetention).getD default.operationRetention
  cleanupInterval :=
    atLeastOne ((o.cleanupInterval.or f.cleanupInterval).getD default.cleanupInterval)
  logLevel :=
    ((o.logLevel.filter (· ≠ default.logLevel)).or f.logLevel).getD default.logLevel

end Settings
end EchoServer
