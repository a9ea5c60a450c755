import EchoServer.Message.Operation

/-! Operations get numbered names, and are done from their end time on. Numbers of forgotten ones
are not given out again before the words that count them run out. -/
namespace EchoServer

open Time (Timestamp)

/-- An operation as it is registered. -/
structure PendingOperation where
  endTime : Timestamp
  request : WaitRequest

namespace PendingOperation

/-- What the operation holds once it is done: the error asked for, or else the response. -/
def result (o : PendingOperation) : OperationResult :=
  match Status.resolve o.request.error with
  | .error s => .error s
  | .ok _ => .response (o.request.success.getD .default)

/-- The state of the operation at time `now`. -/
def snapshot (o : PendingOperation) (name : String) (now : Timestamp) : Operation :=
  let done := decide (o.endTime ≤ now)
  { name, done, endTime := o.endTime, result := if done then some o.result else none }

end PendingOperation

/-- When a requested operation is done: at its end time, else after its time to live, else now.
A time to live that leads out of the calendar counts as none. -/
def WaitRequest.doneAt (r : WaitRequest) (now : Timestamp) : Timestamp :=
  match r.endTime with
  | some t => t
  | none => ((r.ttl.bind Duration.toSpan?).bind now.add?).getD now

/-- The registered operations by name, the oldest first, and the number of the next one. -/
structure Registry where
  operations : List (String × PendingOperation)
  /-- A 64-bit word: behind the largest number comes zero. -/
  nextId : UInt64

namespace Registry

def empty : Registry := ⟨[], 1⟩

/-- What the names of all operations start with. -/
def namePrefix : String := "operations/google.showcase.v1beta1.Echo/Wait/"

def nameOf (id : UInt64) : String := namePrefix ++ String.ofList (Nat.toDigits 10 id.toNat)

/-- Puts an operation under a name, in place of the one that has that name, if there is one. -/
def insert (operations : List (String × PendingOperation)) (name : String)
    (o : PendingOperation) : List (String × PendingOperation) :=
  (operations.filter fun p => p.1 ≠ name) ++ [(name, o)]

/-- Registers an operation at time `now`. -/
def wait (r : Registry) (request : WaitRequest) (now : Timestamp) : Operation × Registry :=
  let name := nameOf r.nextId
  let pending : PendingOperation := { endTime := request.doneAt now, request }
  (pending.snapshot name now,
    { operations := insert r.operations name pending, nextId := r.nextId + 1 })

def find? (r : Registry) (name : String) : Option PendingOperation :=
  (r.operations.find? fun p => p.1 = name).map (·.2)

def unknownName (name : String) : Status :=
  .of .notFound ("Operation " ++ name ++ " not found")

/-- The state of an operation at time `now`. -/
def get (r : Registry) (name : String) (now : Timestamp) : Except Status Operation :=
  match r.find? name with
  | some o => .ok (o.snapshot name now)
  | none => .error (unknownName name)

/-- Forgets the operations that ended at least `retention` nanoseconds before `now`, and counts
them. If the calendar has no such time, nothing is forgotten. -/
def cleanup (r : Registry) (retention : Int) (now : Timestamp) : Nat × Registry :=
  match now.add? (-retention) with
  | none => (0, r)
  | some cutoff =>
    let kept := r.operations.filter fun p => decide ¬ p.2.endTime ≤ cutoff
    (r.operations.length - kept.length, { r with operations := kept })

end Registry

/-- How long an operation is kept that is to be kept for so many seconds, in nanoseconds: the
longest span if that is longer than any. -/
def retentionOf (seconds : Nat) : Int :=
  (Duration.spanOfSeconds? seconds).getD Duration.maxSpan

end EchoServer
