import EchoServer.Proofs.Connection.Sessions
import EchoServer.Proofs.Server.Runs

/-! A ledger keeps, beside a server, the calls that changed the registry and a session for each
connection. With all calls at their end, each operation is the reply to one call of `Wait`. -/
namespace EchoServer.Server

open Connection

/-- What a step does to the registry. -/
inductive RegistryChange (clock : Clock) (s t : Server) : Prop
  | none (h : t.registry = s.registry)
  | cleaned (h : t.registry = (cleanup s.retention clock.now s.registry).2)
  | registered (i : Nat) (c c' : State) (hc : s.connections[i]? = some c)
      (h : Registers clock c c' s.registry t.registry)
      (hconnections : t.connections = s.connections.set i c')

theorem registryChange_of_step {clock : Clock} {s t : Server} (h : Step clock s t) :
    RegistryChange clock s t := by
  cases h with
  | moved i hc hstep =>
    rcases registers_of_move hstep.move with hsame | hregisters
    · exact .none hsame
    · exact .registered i _ _ hc hregisters rfl
  | cleaned => exact .cleaned rfl
  | _ => exact .none rfl

/-- What is on record about a server. -/
structure Ledger where
  /-- The calls that changed the registry. -/
  events : List Registry.Event
  /-- The connections that are over or lost, and have given their slots back. -/
  past : List Session
  /-- The connections that are being served, the oldest first. -/
  present : List Session

def Ledger.sessions (l : Ledger) : List Session := l.past ++ l.present

/-- The operations that the accounts of the sessions say were registered. -/
def Ledger.operations (l : Ledger) : List Operation :=
  l.sessions.flatMap fun x => operationsOf x.accounts

/-- A step of a server, and what is put on record about it. -/
inductive Records (clock : Clock) (l : Ledger) (s : Server) : Ledger → Server → Prop
  | slot {slots} (e : SlotEvent) (he : e = .taken ∨ e = .acceptFailed)
      (h : s.slots.step? e = some slots) : Records clock l s l { s with slots }
  | accepted {slots} (h : s.slots.step? .accepted = some slots) :
      Records clock l s { l with present := l.present ++ [.start s.streamBuffer] }
        { s with slots, connections := s.connections ++ [.init s.streamBuffer true] }
  | ended {slots x} (i : Nat) (hx : l.present[i]? = some x)
      (hf : x.state.isFinished = true ∨ x.state.isBroken = true)
      (h : s.slots.step? .ended = some slots) :
      Records clock l s { l with past := l.past ++ [x], present := l.present.eraseIdx i }
        { s with slots, connections := s.connections.eraseIdx i }
  | news {x y} (i : Nat) (hx : l.present[i]? = some x) (h : x.News y) :
      Records clock l s { l with present := l.present.set i y }
        { s with connections := s.connections.set i y.state }
  | moved {x y registry} (i : Nat) (hx : l.present[i]? = some x)
      (h : x.Next clock s.registry y registry) :
      Records clock l s
        { l with
          events := l.events ++ registeredIn clock s.registry x.state y.state
          present := l.present.set i y }
        { s with registry, connections := s.connections.set i y.state }
  | cleaned :
      Records clock l s
        { l with events := l.events ++ [.cleanup (retentionOf s.retention) clock.now] }
        { s with registry := (cleanup s.retention clock.now s.registry).2 }

/-- The runs of a server with its ledger. -/
inductive Kept (settings : Settings) : Ledger → Server → Prop
  | init (hstart : CanStart settings) : Kept settings ⟨[], [], []⟩ (.init settings)
  | step {l l' : Ledger} {s t : Server} (clock : Clock) (hrun : Kept settings l s)
      (hstep : Records clock l s l' t) : Kept settings l' t

/-- The ledger is that of the server. -/
structure Sound (settings : Settings) (l : Ledger) (s : Server) : Prop where
  reachable : Reachable settings s
  streamBuffer : s.streamBuffer = settings.streamBuffer.toNat
  connections : s.connections = l.present.map (·.state)
  sessions : ∀ x ∈ l.sessions, x.On settings.streamBuffer.toNat s.registry
  registry : s.registry = Registry.after l.events
  operations : (Registry.empty.begun l.events).Perm l.operations

section
variable {settings : Settings} {clock : Clock} {l l' : Ledger} {s t : Server} {x y : Session}
  {i : Nat}

/-- One session goes on, and the others stay as they are. -/
theorem operations_set {more : List Operation} (hx : l.present[i]? = some x)
    (hmore : operationsOf y.accounts = operationsOf x.accounts ++ more) :
    (Ledger.operations { l with present := l.present.set i y }).Perm (l.operations ++ more) := by
  obtain ⟨hi, hget⟩ := List.getElem?_eq_some_iff.mp hx
  let others : List Session := l.past ++ l.present.eraseIdx i
  let operations (xs : List Session) : List Operation := xs.flatMap fun x => operationsOf x.accounts
  -- the session at `i` in front of all others, before and after
  have hset (z : Session) : (operations (l.past ++ l.present.set i z)).Perm
      (operationsOf z.accounts ++ operations others) := by
    have hperm : (l.past ++ l.present.set i z).Perm (z :: others) :=
      ((List.set_perm_cons_eraseIdx hi z).append_left l.past).trans List.perm_middle
    exact hperm.flatMap_right _
  have hbefore : l.operations.Perm (operationsOf x.accounts ++ operations others) := by
    have hsame := hset x
    rwa [← hget, List.set_getElem_self, hget] at hsame
  calc
    (operations (l.past ++ l.present.set i y)).Perm
        (operationsOf y.accounts ++ operations others) := hset y
    _ = operationsOf x.accounts ++ (more ++ operations others) := by rw [hmore, List.append_assoc]
    List.Perm _ (operationsOf x.accounts ++ (operations others ++ more)) :=
      List.perm_append_comm.append_left _
    _ = (operationsOf x.accounts ++ operations others) ++ more := (List.append_assoc ..).symm
    List.Perm _ (l.operations ++ more) := hbefore.symm.append_right _

/-- The session at a place is that of the connection there. -/
theorem Sound.get (h : Sound settings l s) (hx : l.present[i]? = some x) :
    s.connections[i]? = some x.state := by
  rw [h.connections, List.getElem?_map, hx]
  rfl

theorem sound_init (hstart : CanStart settings) :
    Sound settings ⟨[], [], []⟩ (.init settings) where
  reachable := .init hstart
  streamBuffer := rfl
  connections := rfl
  sessions := fun x hx => by cases hx
  registry := rfl
  operations := .nil

/-- A new connection has registered nothing. -/
theorem sound_accepted {slots : Slots} (h : Sound settings l s)
    (hs : s.slots.step? .accepted = some slots) :
    Sound settings { l with present := l.present ++ [.start s.streamBuffer] }
      { s with slots, connections := s.connections ++ [.init s.streamBuffer true] } where
  reachable := .step ⟨0, epoch⟩ h.reachable (.accepted hs)
  streamBuffer := h.streamBuffer
  connections := by
    rw [h.connections, List.map_append]
    rfl
  sessions := by
    intro x hx
    rw [Ledger.sessions, ← List.append_assoc] at hx
    rcases List.mem_append.mp hx with hx | hx
    · exact h.sessions x hx
    · rw [List.mem_singleton.mp hx, h.streamBuffer]
      exact Session.on_start _ _
  registry := h.registry
  operations := by
    have hnew : operationsOf (Session.start s.streamBuffer).accounts = [] := rfl
    simpa [Ledger.operations, Ledger.sessions, hnew] using h.operations

/-- A connection that is over keeps what it has registered. -/
theorem sound_ended {slots : Slots} (h : Sound settings l s) (hx : l.present[i]? = some x)
    (hf : x.state.isFinished = true ∨ x.state.isBroken = true)
    (hs : s.slots.step? .ended = some slots) :
    Sound settings { l with past := l.past ++ [x], present := l.present.eraseIdx i }
      { s with slots, connections := s.connections.eraseIdx i } := by
  obtain ⟨hi, hget⟩ := List.getElem?_eq_some_iff.mp hx
  have hperm : (l.past ++ [x] ++ l.present.eraseIdx i).Perm l.sessions := by
    rw [List.append_assoc, ← hget]
    exact (List.getElem_cons_eraseIdx_perm hi).append_left l.past
  exact
    { reachable := .step ⟨0, epoch⟩ h.reachable (.ended i (h.get hx) hf hs)
      streamBuffer := h.streamBuffer
      connections := by
        rw [h.connections]
        exact List.eraseIdx_map ..
      sessions := fun z hz => h.sessions z (hperm.subset hz)
      registry := h.registry
      operations := h.operations.trans (hperm.flatMap_right _).symm }

/-- What happens to a connection keeps its session, if the registry changes as its accounts say. -/
theorem sound_set {registry : Registry} {events : List Registry.Event} (h : Sound settings l s)
    (hx : l.present[i]? = some x) (hy : y.On settings.streamBuffer.toNat registry)
    (hreachable : Reachable settings
      { s with registry, connections := s.connections.set i y.state })
    (hregistry : registry = s.registry.run events)
    (hoperations : operationsOf y.accounts = operationsOf x.accounts ++ s.registry.begun events) :
    Sound settings { l with events := l.events ++ events, present := l.present.set i y }
      { s with registry, connections := s.connections.set i y.state } where
  reachable := hreachable
  streamBuffer := h.streamBuffer
  connections := by
    rw [h.connections]
    exact List.map_set.symm
  sessions := by
    intro z hz
    rcases List.mem_append.mp hz with hz | hz
    · exact (h.sessions z (List.mem_append_left _ hz)).share registry
    · rcases List.mem_or_eq_of_mem_set hz with hz | rfl
      · exact (h.sessions z (List.mem_append_right _ hz)).share registry
      · exact hy
  registry := by rw [Registry.after_append, ← h.registry, hregistry]
  operations := by
    rw [Registry.begun_append]
    have hmore := (h.operations.append_right ((Registry.after l.events).begun events)).trans
      (operations_set hx (h.registry ▸ hoperations)).symm
    exact hmore

theorem sound_cleaned (clock : Clock) (h : Sound settings l s) :
    Sound settings { l with events := l.events ++ [.cleanup (retentionOf s.retention) clock.now] }
      { s with registry := (cleanup s.retention clock.now s.registry).2 } where
  reachable := .step clock h.reachable .cleaned
  streamBuffer := h.streamBuffer
  connections := h.connections
  sessions := fun x hx => (h.sessions x hx).share _
  registry := by
    rw [Registry.after_snoc, ← h.registry]
    rfl
  operations := by
    rw [Registry.begun_append]
    exact (List.append_nil _).symm ▸ h.operations

theorem sound_step (hstep : Records clock l s l' t) (h : Sound settings l s) :
    Sound settings l' t := by
  have hon {i : Nat} {x : Session} (hx : l.present[i]? = some x) :
      x.On settings.streamBuffer.toNat s.registry :=
    h.sessions x (List.mem_append_right _ (List.mem_of_getElem? hx))
  cases hstep with
  | slot e he hs => exact { h with reachable := .step clock h.reachable (.slot e he hs) }
  | accepted hs => exact sound_accepted h hs
  | ended i hx hf hs => exact sound_ended h hx hf hs
  | @news x y i hx hnews =>
    have hreachable : Reachable settings { s with connections := s.connections.set i y.state } := by
      refine .step clock h.reachable ?_
      cases hnews with
      | received bytes hopen => exact .received i (h.get hx) bytes
      | inputClosed => exact .inputClosed i (h.get hx)
      | dropped => exact .dropped i (h.get hx)
    -- what a peer does leaves the accounts as they are
    have hsame : operationsOf y.accounts = operationsOf x.accounts ++ [] := by
      rw [List.append_nil]
      cases hnews <;> rfl
    rw [← List.append_nil l.events]
    exact sound_set h hx ((hon hx).news hnews) hreachable rfl hsame
  | moved i hx hnext =>
    obtain ⟨hregistry, hoperations⟩ := Session.operationsOf_next (hon hx) hnext
    refine sound_set h hx ((hon hx).next hnext) ?_ hregistry hoperations
    exact .step clock h.reachable (.moved i (h.get hx) hnext.step_state)
  | cleaned => exact sound_cleaned clock h

theorem sound_of_kept (hrun : Kept settings l s) : Sound settings l s := by
  induction hrun with
  | init hstart => exact sound_init hstart
  | step clock _ hstep ih => exact sound_step hstep ih

/-- Bytes arrive on a connection behind the end of its input. -/
def Late (s t : Server) : Prop :=
  ∃ i c bytes, s.connections[i]? = some c ∧ c.inbox.closed = true ∧
    t = { s with connections := s.connections.set i (c.receive bytes) }

/-- Whatever happens next can be put on record. -/
theorem records_or_late (h : Sound settings l s) (hstep : Step clock s t) :
    (∃ l', Records clock l s l' t) ∨ Late s t := by
  have hget {i : Nat} {c : State} (hc : s.connections[i]? = some c) :
      ∃ x, l.present[i]? = some x ∧ x.state = c := by
    rw [h.connections, List.getElem?_map] at hc
    exact Option.map_eq_some_iff.mp hc
  cases hstep with
  | slot e he hs => exact Or.inl ⟨_, .slot e he hs⟩
  | accepted hs => exact Or.inl ⟨_, .accepted hs⟩
  | ended i hc hf hs =>
    obtain ⟨x, hx, rfl⟩ := hget hc
    exact Or.inl ⟨_, .ended i hx hf hs⟩
  | @received c i hc bytes =>
    cases hclosed : c.inbox.closed with
    | true => exact Or.inr ⟨i, c, bytes, hc, hclosed, rfl⟩
    | false =>
      obtain ⟨x, hx, rfl⟩ := hget hc
      exact Or.inl ⟨_, .news i hx (.received bytes hclosed)⟩
  | inputClosed i hc =>
    obtain ⟨x, hx, rfl⟩ := hget hc
    exact Or.inl ⟨_, .news i hx .inputClosed⟩
  | dropped i hc =>
    obtain ⟨x, hx, rfl⟩ := hget hc
    exact Or.inl ⟨_, .news i hx .dropped⟩
  | moved i hc hmove =>
    obtain ⟨x, hx, rfl⟩ := hget hc
    obtain ⟨y, hnext, rfl⟩ := Session.exists_next hmove
    exact Or.inl ⟨_, .moved i hx hnext⟩
  | cleaned => exact Or.inl ⟨_, .cleaned⟩

/-- No call is under way any more, and no peer has vanished. -/
structure AllEnded (l : Ledger) : Prop where
  ended : ∀ x ∈ l.sessions, x.state.BetweenCalls
  there : ∀ x ∈ l.sessions, x.state.outbox.gone = false

theorem betweenCalls_of_finished {c : State} (h : c.isFinished = true) : c.BetweenCalls := by
  unfold State.isFinished at h
  split at h
  · rename_i failure hp
    exact Or.inr ⟨failure, hp⟩
  · cases h

theorem exists_transcripts (h : Sound settings l s) (hended : AllEnded l) :
    ∃ calls, List.Forall₂ Session.Transcript l.sessions calls := by
  have hall : ∀ x ∈ l.sessions, ∃ calls, x.Transcript calls := by
    intro x hx
    exact Session.exists_transcript (h.sessions x hx) (hended.there x hx) (hended.ended x hx)
  generalize l.sessions = sessions at hall
  induction sessions with
  | nil => exact ⟨[], .nil⟩
  | cons x sessions ih =>
    obtain ⟨first, hfirst⟩ := hall x (by simp)
    obtain ⟨calls, hcalls⟩ := ih fun z hz => hall z (by simp [hz])
    exact ⟨first :: calls, .cons hfirst hcalls⟩

section
variable {sessions : List Session} {calls : List (List (Account × Block))}

theorem answeredWaits_of_transcripts (h : List.Forall₂ Session.Transcript sessions calls) :
    (calls.flatten.filterMap fun p => answeredWait? p.1 p.2) =
      (sessions.flatMap fun x => operationsOf x.accounts).map
        fun o => Service.responseBody o.toJson := by
  induction h with
  | nil => rfl
  | cons hfirst hrest ih =>
    rw [List.flatten_cons, List.filterMap_append, List.flatMap_cons, List.map_append, ih,
      hfirst.answeredWaits]

theorem yields_of_transcripts (h : List.Forall₂ Session.Transcript sessions calls) :
    ∀ p ∈ calls.flatten, p.1.Yields p.2 := by
  induction h with
  | nil => exact fun p hp => by cases hp
  | cons hfirst hrest ih =>
    intro p hp
    rcases List.mem_append.mp hp with hp | hp
    · exact hfirst.yields p hp
    · exact ih p hp

end

/-- When all calls have come to their end, the operations that were registered are, one for one, the
replies to the calls of `Wait` that ended well. -/
theorem operations_are_answered_waits (hrun : Kept settings l s) :
    let operations := Registry.empty.begun l.events
    Reachable settings s ∧ s.connections = l.present.map (·.state) ∧
    (∀ clock t, Step clock s t →
      RegistryChange clock s t ∧ ((∃ l', Records clock l s l' t) ∨ Late s t)) ∧
    s.registry = Registry.after l.events ∧
    s.registry.nextId = .ofNat (operations.length + 1) ∧
    operations.map (·.name) =
      ((List.range operations.length).map fun n => Registry.nameOf (.ofNat (n + 1))) ∧
    operations.Perm l.operations ∧
    (AllEnded l → ∃ calls, List.Forall₂ Session.Transcript l.sessions calls ∧
      (operations.map fun o => Service.responseBody o.toJson).Perm
        (calls.flatten.filterMap fun p => answeredWait? p.1 p.2) ∧
      ∀ p ∈ calls.flatten,
        answeredWait? p.1 p.2 = p.1.operation?.map (fun o => Service.responseBody o.toJson) ∧
        (Method.ofPath? p.1.path = some .wait → p.2.status.code = .ok →
          (answeredWait? p.1 p.2).isSome = true)) := by
  intro operations
  have hsound := sound_of_kept hrun
  have hlength : operations.length = Registry.waits l.events := by
    have hnames := congrArg List.length (Registry.begun_names l.events)
    simpa using hnames
  refine ⟨hsound.reachable, hsound.connections, ?_, hsound.registry, ?_, ?_,
    hsound.operations, ?_⟩
  · intro clock t hstep
    exact ⟨registryChange_of_step hstep, records_or_late hsound hstep⟩
  · apply UInt64.toNat_inj.mp
    rw [hlength, hsound.registry, Registry.nextId_after, UInt64.toNat_ofNat']
  · rw [hlength]
    exact Registry.begun_names l.events
  -- at rest the accounts say what was written, and that is what was registered
  · intro hended
    obtain ⟨calls, hcalls⟩ := exists_transcripts hsound hended
    refine ⟨calls, hcalls, ?_, ?_⟩
    · rw [answeredWaits_of_transcripts hcalls]
      exact hsound.operations.map _
    · intro p hp
      have hyields := yields_of_transcripts hcalls p hp
      refine ⟨answeredWait?_of_yields hyields, fun hm hcode => ?_⟩
      rcases hyields.of_wait hm with ⟨o, ho, -⟩ | ⟨-, hfailed⟩
      · rw [answeredWait?_of_yields hyields, ho]
        rfl
      · exact absurd hcode hfailed

/-- With a single connection the ledger follows the schedule. -/
theorem exists_kept_run (clock : Clock) (n : Nat) {events : List Registry.Event} {r : Registry}
    (h : Kept settings ⟨events, [], [x]⟩ (serving settings (x.state, r))) :
    ∃ events y r', Connection.run clock n (x.state, r) = (y.state, r') ∧
      Kept settings ⟨events, [], [y]⟩ (serving settings (y.state, r')) := by
  induction n generalizing x events r with
  | zero => exact ⟨events, x, r, rfl, h⟩
  | succ n ih =>
    rw [Connection.run]
    split
    · exact ⟨events, x, r, rfl, h⟩
    · rename_i b hb
      obtain ⟨t, r'⟩ := b
      obtain ⟨y, hnext, rfl⟩ := Session.exists_next (x := x) (Connection.step_of_move hb)
      exact ih (.step clock h (.moved 0 rfl hnext))

/-- A call of `Wait` without a request, one that is cancelled, and one that goes well. -/
def threeWaits : List UInt8 :=
  [ClientFrame.call "Wait" .empty, .halfClose,
    .call "Wait" .empty, .message (.object []), .cancel,
    .call "Wait" .empty, .message (.object []), .halfClose].flatMap fun f => Wire.encode f.toJson

/-- What a new connection comes to that receives them and whose peer then closes its side. -/
def waited : State × Registry :=
  Connection.run ⟨0, epoch⟩ 40 (((State.init 16 true).receive threeWaits).closeInput, .empty)

theorem exists_kept_waited : ∃ l, Kept .default l (serving .default waited) ∧
    l.sessions.map (·.state) = [waited.1] := by
  let clock : Clock := ⟨0, epoch⟩
  have htaken : (Slots.init Settings.default.maxConnections.toNat).step? .taken =
      some ⟨Settings.default.maxConnections.toNat - 1, true, 0⟩ := by decide
  have haccepted : Kept .default ⟨[], [], [.start 16]⟩
      (serving .default (.init 16 true, .empty)) :=
    .step clock (.step clock (.init (by decide)) (.slot .taken (Or.inl rfl) htaken)) (.accepted rfl)
  have hreceived := Kept.step clock haccepted (.news 0 rfl (.received threeWaits rfl))
  have hclosed := Kept.step clock hreceived (.news 0 rfl .inputClosed)
  obtain ⟨events, y, r, hrun, hkept⟩ := exists_kept_run clock 40 hclosed
  have hwaited : waited = (y.state, r) := hrun
  exact ⟨_, hwaited ▸ hkept, by rw [hwaited]; rfl⟩

/-- Two calls of `Wait` that fail use up no number. -/
theorem operations_are_answered_waits_three : ∃ l, Kept .default l (serving .default waited) ∧
    AllEnded l ∧ waited.2.nextId = 2 ∧
    (waited.1.outbox.written.map fun f => match f with
      | .message _ => none
      | .trailers status _ => some status.code) =
        [some .internal, some .cancelled, none, some .ok] ∧
    ∃ calls, List.Forall₂ Session.Transcript l.sessions calls ∧ waited.2.nextId =
      .ofNat ((calls.flatten.filterMap fun p => answeredWait? p.1 p.2).length + 1) := by
  obtain ⟨l, hkept, hsessions⟩ := exists_kept_waited
  have hfacts : waited.1.isFinished = true ∧ waited.1.outbox.gone = false ∧
      waited.2.nextId = 2 := by decide +kernel
  have hwritten : (waited.1.outbox.written.map fun f => match f with
      | .message _ => none
      | .trailers status _ => some status.code) =
        [some .internal, some .cancelled, none, some .ok] := by decide +kernel
  -- from here on the run is not computed any more
  generalize waited = a at hkept hsessions hfacts hwritten ⊢
  obtain ⟨hfinished, hgone, hnext⟩ := hfacts
  have hstate : ∀ x ∈ l.sessions, x.state = a.1 := by
    intro x hx
    have hmem : x.state ∈ l.sessions.map (·.state) := List.mem_map_of_mem hx
    rw [hsessions] at hmem
    exact List.mem_singleton.mp hmem
  have hended : AllEnded l := by
    refine ⟨fun x hx => ?_, fun x hx => ?_⟩
    · apply betweenCalls_of_finished
      rw [hstate x hx]
      exact hfinished
    · rw [hstate x hx]
      exact hgone
  obtain ⟨-, -, -, -, hid, -, -, hanswered⟩ := operations_are_answered_waits hkept
  obtain ⟨calls, hcalls, hperm, -⟩ := hanswered hended
  refine ⟨l, hkept, hended, hnext, hwritten, calls, hcalls, ?_⟩
  rw [← hperm.length_eq, List.length_map]
  exact hid

end
end EchoServer.Server
