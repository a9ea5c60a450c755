import EchoServer.Proofs.Connection.Moves
import EchoServer.Server.Basic

namespace EchoServer.Server

open Connection (Clock Move State)

/-- A server comes to this state: it was set up, and one thing happened after the other. -/
inductive Reachable (settings : Settings) : Server → Prop
  | init (hstart : CanStart settings) : Reachable settings (.init settings)
  | step {s t : Server} (clock : Clock) (h : Reachable settings s) (hstep : Step clock s t) :
      Reachable settings t

theorem canStart_of_reachable {settings : Settings} {s : Server} (h : Reachable settings s) :
    CanStart settings := by
  induction h with
  | init hstart => exact hstart
  | step clock _ hstep ih => exact ih

/-- A new connection has the property, and whatever happens to a connection keeps it. -/
structure Lasting (clock : Clock) (s : Server) (P : State → Prop) : Prop where
  accepted : P (.init s.streamBuffer true)
  received : ∀ c bytes, P c → P (c.receive bytes)
  inputClosed : ∀ c, P c → P c.closeInput
  dropped : ∀ c, P c → P c.drop
  moved : ∀ c b, P c → Move clock (c, s.registry) b → P b.1

theorem Lasting.step {clock : Clock} {s t : Server} {P : State → Prop} (h : Lasting clock s P)
    (hall : ∀ c ∈ s.connections, P c) (hstep : Step clock s t) : ∀ c ∈ t.connections, P c := by
  -- whatever happens to one connection leaves the others as they are
  have hset (i : Nat) {c : State} (hc : P c) : ∀ d ∈ s.connections.set i c, P d := by
    intro d hd
    rcases List.mem_or_eq_of_mem_set hd with hd | rfl
    · exact hall d hd
    · exact hc
  have hget {i : Nat} {c : State} (hc : s.connections[i]? = some c) : P c :=
    hall c (List.mem_of_getElem? hc)
  cases hstep with
  | slot e he hs => exact hall
  | accepted hs =>
    intro c hc
    rcases List.mem_append.mp hc with hc | hc
    · exact hall c hc
    · rw [List.mem_singleton.mp hc]
      exact h.accepted
  | ended i hc hf hs =>
    intro d hd
    exact hall d (List.mem_of_mem_eraseIdx hd)
  | received i hc bytes => exact hset i (h.received _ bytes (hget hc))
  | inputClosed i hc => exact hset i (h.inputClosed _ (hget hc))
  | dropped i hc => exact hset i (h.dropped _ (hget hc))
  | moved i hc hmoved =>
    exact hset i (h.moved _ _ (hget hc) hmoved.move)
  | cleaned => exact hall

/-- The server with a single connection in this state. -/
def serving (settings : Settings) (a : State × Registry) : Server :=
  { Server.init settings with
    slots := ⟨settings.maxConnections.toNat - 1, false, 1⟩, registry := a.2, connections := [a.1] }

section
variable {settings : Settings}

theorem reachable_accepted (clock : Clock) (hstart : CanStart settings)
    (h : 0 < settings.maxConnections.toNat) :
    Reachable settings (serving settings (.init settings.streamBuffer.toNat true, .empty)) := by
  have htaken : (Slots.init settings.maxConnections.toNat).step? .taken =
      some ⟨settings.maxConnections.toNat - 1, true, 0⟩ := by simp [Slots.step?, Slots.init, h]
  refine .step clock (.step clock (.init hstart) (.slot .taken (Or.inl rfl) htaken)) ?_
  exact .accepted rfl

theorem Reachable.received (clock : Clock) {a : State × Registry}
    (h : Reachable settings (serving settings a)) (bytes : List UInt8) :
    Reachable settings (serving settings (a.1.receive bytes, a.2)) :=
  .step clock h (.received 0 rfl bytes)

theorem Reachable.moved {clock : Clock} {a b : State × Registry}
    (h : Reachable settings (serving settings a)) (hstep : Connection.Step clock a b) :
    Reachable settings (serving settings b) :=
  .step clock h (.moved 0 rfl hstep)

theorem Reachable.run (clock : Clock) {a : State × Registry}
    (h : Reachable settings (serving settings a)) (n : Nat) :
    Reachable settings (serving settings (Connection.run clock n a)) := by
  induction n generalizing a with
  | zero => exact h
  | succ n ih =>
    rw [Connection.run]
    split
    · exact h
    · rename_i b hb
      exact ih (h.moved (Connection.step_of_move hb))

end
end EchoServer.Server
