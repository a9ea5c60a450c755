import EchoServer.Connection.Step

namespace EchoServer.Connection

/-- The parties in the order in which they are asked. -/
def order : List Actor := [.forwarder, .handler, .timer, .watcher, .main]

/-- The move of the first party that can move, which takes all the bytes there are. -/
def move (clock : Clock) (a : State × Registry) : Option (State × Registry) :=
  order.findSome? fun who => act who a.1.inbox.arrived.length clock a.2 a.1

def run (clock : Clock) : Nat → State × Registry → State × Registry
  | 0, a => a
  | n + 1, a => match move clock a with
    | none => a
    | some b => run clock n b

/-- The responses and bytes that a phase has in hand. -/
def Phase.load : Phase → Nat
  | .gather _ (some body) => body.print.length
  | .work _ (.request body) _ => body.print.length
  | .work _ (.stream t) _ => t.queue.length + match t.handler with
    | .start body => body.print.length
    | .send pending _ => pending.length
    | _ => 1
  | .close frames => frames.length
  | _ => 1

/-- More moves than a connection can make before something new happens to it: each byte that it
holds is read once, and makes at most one word, which is sent, taken and written. -/
def State.budget (s : State) : Nat := 16 * (s.inbox.size + s.phase.load + 16)

def settle (clock : Clock) (a : State × Registry) : State × Registry :=
  run clock a.1.budget a

/-- When the running call is due, if it waits for that. -/
def State.deadline? (s : State) : Option Nat :=
  match s.phase with
  | .work _ (.delay deadline _) _ => some deadline
  | _ => none

/-- Lets time pass up to `target`, from one deadline to the next, at most `n` of them. -/
def passUntil (target : Nat) :
    Nat → Clock → State × Registry → State × Registry
  | 0, clock, a => settle { clock with elapsed := target } a
  | n + 1, clock, a =>
    let a := settle clock a
    match a.1.deadline? with
    | some d =>
      if d ≤ target then passUntil target n { clock with elapsed := max clock.elapsed d } a
      else settle { clock with elapsed := target } a
    | none => settle { clock with elapsed := target } a

/-- Lets `n` nanoseconds pass. A call takes some bytes, so there are fewer calls than bytes. -/
def pass (n : Nat) (clock : Clock) (a : State × Registry) : State × Registry :=
  passUntil (clock.elapsed + n) (a.1.inbox.size + 2) clock a

theorem step_of_move {clock : Clock} {a b : State × Registry} (h : move clock a = some b) :
    Step clock a b := by
  obtain ⟨who, _, hw⟩ := List.exists_of_findSome?_eq_some h
  exact ⟨who, _, hw⟩

end EchoServer.Connection
