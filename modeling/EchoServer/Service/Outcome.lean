import EchoServer.Metadata
import EchoServer.Status

namespace EchoServer

/-- What a handler leaves behind. -/
structure Outcome (α : Type) where
  result : Except Status α
  trailers : Metadata

namespace Outcome

/-- The outcome of a call with this metadata whose handler comes to `result`. -/
def of {α : Type} (metadata : Metadata) (result : Except Status α) : Outcome α :=
  match result with
  | .ok a => ⟨.ok a, metadata.echoTrailers .empty⟩
  | .error s => ⟨.error s, .empty⟩

def fail {α : Type} (s : Status) : Outcome α := ⟨.error s, .empty⟩

def map {α β : Type} (f : α → β) (o : Outcome α) : Outcome β := ⟨o.result.map f, o.trailers⟩

end Outcome
end EchoServer
