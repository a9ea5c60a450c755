import EchoServer.Proofs.Connection.Rest
import EchoServer.Proofs.Server.Runs
import Mathlib.Data.List.Induction

namespace EchoServer

theorem Settings.toNat_atLeastOne (n : UInt64) :
    (Settings.atLeastOne n).toNat = max n.toNat 1 := by
  unfold Settings.atLeastOne
  split
  · rename_i h
    rw [h]
    rfl
  · rename_i h
    have hpos : n.toNat ≠ 0 := by
      intro hzero
      exact h (UInt64.toNat_inj.mp hzero)
    omega

namespace Server

open Connection (Clock State)

namespace Slots

/-- All the slots, whoever has them. -/
def total (s : Slots) : Nat := s.free + s.serving + s.held.toNat

theorem total_init (limit : Nat) : (init limit).total = limit := rfl

/-- What has to be so that an event can happen, and what it leaves. -/
def Turns (s : Slots) : SlotEvent → Slots → Prop
  | .taken, t => 0 < s.free ∧ s.held = false ∧ t = ⟨s.free - 1, true, s.serving⟩
  | .accepted, t => s.held = true ∧ t = ⟨s.free, false, s.serving + 1⟩
  | .acceptFailed, t => s.held = true ∧ t = ⟨s.free + 1, false, s.serving⟩
  | .ended, t => 0 < s.serving ∧ t = ⟨s.free + 1, s.held, s.serving - 1⟩

theorem step?_eq_some_iff {s t : Slots} {e : SlotEvent} : s.step? e = some t ↔ s.Turns e t := by
  cases e with
  | taken => simp only [step?, Turns, Option.ite_none_right_eq_some, Option.some.injEq,
      Bool.not_eq_true, and_assoc, eq_comm (b := t)]
  | accepted => simp only [step?, Turns, Option.ite_none_right_eq_some, Option.some.injEq,
      eq_comm (b := t)]
  | acceptFailed => simp only [step?, Turns, Option.ite_none_right_eq_some, Option.some.injEq,
      eq_comm (b := t)]
  | ended => simp only [step?, Turns, Option.ite_none_right_eq_some, Option.some.injEq,
      eq_comm (b := t)]

theorem total_step {s t : Slots} {e : SlotEvent} (h : s.step? e = some t) : t.total = s.total := by
  have hturns := step?_eq_some_iff.mp h
  cases e with
  | taken =>
    obtain ⟨hfree, hheld, rfl⟩ := hturns
    simp only [total, hheld, Bool.toNat_true, Bool.toNat_false]
    omega
  | accepted =>
    obtain ⟨hheld, rfl⟩ := hturns
    simp only [total, hheld, Bool.toNat_true, Bool.toNat_false]
    omega
  | acceptFailed =>
    obtain ⟨hheld, rfl⟩ := hturns
    simp only [total, hheld, Bool.toNat_true, Bool.toNat_false]
    omega
  | ended =>
    obtain ⟨hserving, rfl⟩ := hturns
    simp only [total]
    omega

theorem run?_snoc (s : Slots) (events : List SlotEvent) (e : SlotEvent) :
    s.run? (events ++ [e]) = (s.run? events).bind (step? · e) := by
  simp [run?, List.foldlM_append]

theorem exists_of_run?_snoc {s t : Slots} {events : List SlotEvent} {e : SlotEvent}
    (h : s.run? (events ++ [e]) = some t) : ∃ u, s.run? events = some u ∧ u.step? e = some t := by
  rw [run?_snoc] at h
  exact Option.bind_eq_some_iff.mp h

theorem total_run {s t : Slots} {events : List SlotEvent} (h : s.run? events = some t) :
    t.total = s.total := by
  induction events using List.reverseRecOn generalizing t with
  | nil =>
    obtain rfl := Option.some.inj h
    rfl
  | append_singleton events e ih =>
    obtain ⟨u, hu, hstep⟩ := exists_of_run?_snoc h
    calc t.total = u.total := total_step hstep
      _ = s.total := ih hu

/-- Each slot that was taken was handed to one connection, given back after a failure or is still
held, and each one that was handed over was given back once or is still in use. -/
structure Balanced (events : List SlotEvent) (s : Slots) : Prop where
  taken : events.count .taken =
    events.count .accepted + events.count .acceptFailed + s.held.toNat
  accepted : events.count .accepted = events.count .ended + s.serving

theorem balanced_run {limit : Nat} {s : Slots} {events : List SlotEvent}
    (h : (init limit).run? events = some s) : Balanced events s := by
  induction events using List.reverseRecOn generalizing s with
  | nil =>
    obtain rfl := Option.some.inj h
    exact ⟨rfl, rfl⟩
  | append_singleton events e ih =>
    obtain ⟨u, hu, hstep⟩ := exists_of_run?_snoc h
    obtain ⟨htaken, haccepted⟩ := ih hu
    have hturns := step?_eq_some_iff.mp hstep
    -- every event is counted on one side of each equation and moves a slot on the other
    cases e with
    | taken =>
      obtain ⟨-, hheld, rfl⟩ := hturns
      rw [hheld] at htaken
      constructor <;> simp [List.count_append] at htaken ⊢ <;> omega
    | accepted =>
      obtain ⟨hheld, rfl⟩ := hturns
      rw [hheld] at htaken
      constructor <;> simp [List.count_append] at htaken ⊢ <;> omega
    | acceptFailed =>
      obtain ⟨hheld, rfl⟩ := hturns
      rw [hheld] at htaken
      constructor <;> simp [List.count_append] at htaken ⊢ <;> omega
    | ended =>
      obtain ⟨hserving, rfl⟩ := hturns
      constructor <;> simp [List.count_append] at htaken ⊢ <;> omega

/-- The accept loop has a slot or can take one, unless all of them are with connections. -/
theorem exists_held {s : Slots} (h : s.serving < s.total) :
    s.held = true ∨ ∃ t, s.step? .taken = some t ∧ t.held = true := by
  cases hheld : s.held with
  | true => exact Or.inl rfl
  | false =>
    have hfree : 0 < s.free := by
      simp only [total, hheld, Bool.toNat_false] at h
      omega
    exact Or.inr ⟨_, step?_eq_some_iff.mpr ⟨hfree, hheld, rfl⟩, rfl⟩

end Slots

/-- What a step does to the slots and to the connections. -/
inductive SlotChange (s t : Server) : Prop
  | none (hslots : t.slots = s.slots) (hlength : t.connections.length = s.connections.length)
  | slot (e : SlotEvent) (he : e = .taken ∨ e = .acceptFailed)
      (h : s.slots.step? e = some t.slots) (hconnections : t.connections = s.connections)
  | accepted (h : s.slots.step? .accepted = some t.slots)
      (hconnections : t.connections = s.connections ++ [.init s.streamBuffer true])
  | ended (i : Nat) (c : State) (hc : s.connections[i]? = some c)
      (hf : c.isFinished = true ∨ c.isBroken = true) (h : s.slots.step? .ended = some t.slots)
      (hconnections : t.connections = s.connections.eraseIdx i)

theorem slotChange_of_step {clock : Clock} {s t : Server} (h : Step clock s t) :
    SlotChange s t := by
  cases h with
  | slot e he hs => exact .slot e he hs rfl
  | accepted hs => exact .accepted hs rfl
  | ended i hc hf hs => exact .ended i _ hc hf hs rfl
  | received i hc bytes => exact .none rfl (List.length_set ..)
  | inputClosed i hc => exact .none rfl (List.length_set ..)
  | dropped i hc => exact .none rfl (List.length_set ..)
  | moved i hc hstep => exact .none rfl (List.length_set ..)
  | cleaned => exact .none rfl rfl

/-- The slots are those of some order of events, and each connection has one of them. -/
structure Slotted (limit : Nat) (s : Server) : Prop where
  run : ∃ events, (Slots.init limit).run? events = some s.slots
  serving : s.slots.serving = s.connections.length

section
variable {settings : Settings} {limit : Nat} {s t : Server}

theorem Slotted.next {e : SlotEvent} (h : Slotted limit s) (hs : s.slots.step? e = some t.slots)
    (hserving : t.slots.serving = t.connections.length) : Slotted limit t := by
  obtain ⟨events, hrun⟩ := h.run
  refine ⟨⟨events ++ [e], ?_⟩, hserving⟩
  rw [Slots.run?_snoc, hrun]
  exact hs

theorem slotted_step {clock : Clock} (hstep : Step clock s t) (h : Slotted limit s) :
    Slotted limit t := by
  cases slotChange_of_step hstep with
  | none hslots hlength =>
    refine ⟨?_, ?_⟩
    · rw [hslots]
      exact h.run
    · rw [hslots, hlength, h.serving]
  | slot e he hs hconnections =>
    refine h.next hs ?_
    have hturns := Slots.step?_eq_some_iff.mp hs
    rw [hconnections, ← h.serving]
    rcases he with rfl | rfl
    · rw [hturns.2.2]
    · rw [hturns.2]
  | accepted hs hconnections =>
    refine h.next hs ?_
    rw [(Slots.step?_eq_some_iff.mp hs).2, hconnections, List.length_append, ← h.serving]
    rfl
  | ended i c hc hf hs hconnections =>
    refine h.next hs ?_
    have hi : i < s.connections.length := (List.getElem?_eq_some_iff.mp hc).1
    rw [(Slots.step?_eq_some_iff.mp hs).2, hconnections, List.length_eraseIdx_of_lt hi, ← h.serving]

theorem slotted_of_reachable (h : Reachable settings s) :
    Slotted settings.maxConnections.toNat s := by
  induction h with
  | init => exact ⟨⟨[], rfl⟩, rfl⟩
  | step clock _ hstep ih => exact slotted_step hstep ih

theorem Slotted.total (h : Slotted limit s) :
    s.slots.free + s.connections.length + s.slots.held.toNat = limit := by
  obtain ⟨events, hrun⟩ := h.run
  rw [← h.serving]
  calc s.slots.total = (Slots.init limit).total := Slots.total_run hrun
    _ = limit := Slots.total_init limit

theorem exists_accepted (clock : Clock) (h : s.slots.held = true) : ∃ t, Step clock s t ∧
    t.connections = s.connections ++ [.init s.streamBuffer true] := by
  have haccepted : s.slots.step? .accepted = some ⟨s.slots.free, false, s.slots.serving + 1⟩ :=
    Slots.step?_eq_some_iff.mpr ⟨h, rfl⟩
  exact ⟨_, .accepted haccepted, rfl⟩

/-- The server can come to accept one more connection: at once, or after one step. -/
def CanAccept (clock : Clock) (s : Server) : Prop :=
  ∃ t u, (t = s ∨ Step clock s t) ∧ Step clock t u ∧
    u.connections = s.connections ++ [.init s.streamBuffer true]

theorem Slotted.canAccept_iff (h : Slotted limit s) (clock : Clock) :
    CanAccept clock s ↔ s.connections.length < limit := by
  have htotal := h.total
  constructor
  · -- with one connection more there are still not more than slots
    rintro ⟨t, u, hst, htu, hconnections⟩
    have ht : Slotted limit t := by
      rcases hst with rfl | hst
      · exact h
      · exact slotted_step hst h
    have hu := (slotted_step htu ht).total
    rw [hconnections, List.length_append, List.length_singleton] at hu
    omega
  · intro hlt
    have hserving : s.slots.serving < s.slots.total := by
      simp only [Slots.total, h.serving]
      omega
    rcases Slots.exists_held hserving with hheld | ⟨slots, htaken, hheld⟩
    · obtain ⟨u, hu⟩ := exists_accepted clock hheld
      exact ⟨s, u, Or.inl rfl, hu⟩
    · let taken : Server := { s with slots }
      have hstep : Step clock s taken := .slot .taken (Or.inl rfl) htaken
      obtain ⟨u, hu⟩ := exists_accepted (s := taken) clock hheld
      exact ⟨taken, u, Or.inr hstep, hu⟩

/-- A connection that is over, for good or because of a failure, or has broken down can give its
slot back. -/
theorem Slotted.exists_ended (h : Slotted limit s) (clock : Clock) {i : Nat} {c : State}
    (hc : s.connections[i]? = some c) (hf : c.isFinished = true ∨ c.isBroken = true) :
    ∃ t, Step clock s t ∧ t.connections = s.connections.eraseIdx i ∧
      t.slots.free = s.slots.free + 1 := by
  have hserving : 0 < s.slots.serving := by
    rw [h.serving]
    exact List.length_pos_of_mem (List.mem_of_getElem? hc)
  have hended : s.slots.step? .ended =
      some ⟨s.slots.free + 1, s.slots.held, s.slots.serving - 1⟩ :=
    Slots.step?_eq_some_iff.mpr ⟨hserving, rfl⟩
  exact ⟨_, .ended i hc hf hended, rfl, rfl⟩

end

/-- No connection of the server has been sent anything yet. -/
def Untouched (s : Server) : Prop :=
  ∀ c ∈ s.connections, ∃ n, c = State.init n true

/-- A connection that nothing was sent on is over once its peer closes it. -/
theorem exists_finished (clock : Clock) (n : Nat) (r : Registry) : ∃ c : State,
    c.isFinished = true ∧ Connection.Step clock ((State.init n true).closeInput, r) (c, r) :=
  ⟨_, rfl, .main, 0, rfl⟩

section
variable {settings : Settings} {s : Server}

/-- The oldest connection is closed by its peer, ends and gives its slot back. -/
theorem exists_reachable_ended (h : Reachable settings s) (huntouched : Untouched s) {slots : Slots}
    (hs : s.slots.step? .ended = some slots) :
    ∃ t, Reachable settings t ∧ Untouched t ∧ t.slots = slots := by
  have hserving := (slotted_of_reachable h).serving
  have hpos : 0 < s.connections.length := by
    rw [← hserving]
    exact (Slots.step?_eq_some_iff.mp hs).1
  obtain ⟨c, rest, hcons⟩ := List.exists_cons_of_length_pos hpos
  obtain ⟨n, rfl⟩ := huntouched c (hcons ▸ List.mem_cons_self ..)
  -- its peer closes it, it finishes, and then it is taken off
  let clock : Clock := ⟨0, Connection.epoch⟩
  obtain ⟨d, hd, hmove⟩ := exists_finished clock n s.registry
  let closed : Server :=
    { s with connections := s.connections.set 0 (State.init n true).closeInput }
  have hclosed : Reachable settings closed :=
    .step clock h (.inputClosed 0 (by rw [hcons]; rfl))
  let finished : Server := { closed with connections := closed.connections.set 0 d }
  have hfinished : Reachable settings finished :=
    .step clock hclosed (.moved 0 (by simp only [closed, hcons]; rfl) hmove)
  have hended : Step clock finished { finished with slots, connections := rest } := by
    have hrest : finished.connections.eraseIdx 0 = rest := by
      simp only [finished, closed, hcons, List.set_cons_zero, List.eraseIdx_cons_zero]
    rw [← hrest]
    exact .ended 0 (by simp only [finished, closed, hcons]; rfl) (Or.inl hd) hs
  refine ⟨_, .step clock hfinished hended, ?_, rfl⟩
  intro c hc
  exact huntouched c (hcons ▸ List.mem_cons_of_mem _ hc)

/-- Whatever order of events the slots allow, some server goes through it. -/
theorem exists_reachable_of_run (hstart : CanStart settings) {events : List SlotEvent}
    {slots : Slots} (h : (Slots.init settings.maxConnections.toNat).run? events = some slots) :
    ∃ t, Reachable settings t ∧ Untouched t ∧ t.slots = slots := by
  induction events using List.reverseRecOn generalizing slots with
  | nil =>
    obtain rfl := Option.some.inj h
    refine ⟨_, .init hstart, ?_, rfl⟩
    intro c hc
    cases hc
  | append_singleton events e ih =>
    obtain ⟨before, hbefore, hstep⟩ := Slots.exists_of_run?_snoc h
    obtain ⟨s, hs, huntouched, rfl⟩ := ih hbefore
    let clock : Clock := ⟨0, Connection.epoch⟩
    cases e with
    | taken => exact ⟨_, .step clock hs (.slot .taken (Or.inl rfl) hstep), huntouched, rfl⟩
    | acceptFailed =>
      exact ⟨_, .step clock hs (.slot .acceptFailed (Or.inr rfl) hstep), huntouched, rfl⟩
    | accepted =>
      refine ⟨_, .step clock hs (.accepted hstep), ?_, rfl⟩
      intro c hc
      rcases List.mem_append.mp hc with hc | hc
      · exact huntouched c hc
      · exact ⟨_, List.mem_singleton.mp hc⟩
    | ended => exact exists_reachable_ended hs huntouched hstep

end

/-- For every limit that a command line and a file give, and whatever happens in whatever order. -/
theorem slots_are_kept (o : Settings.Overrides) (f : Settings.FromFile) :
    let settings := Settings.resolve o f
    let limit := settings.maxConnections.toNat
    limit = max ((o.maxConnections.or f.maxConnections).getD
      Settings.default.maxConnections).toNat 1 ∧
    (∀ slots, (∃ server, Reachable settings server ∧ server.slots = slots) ↔
      CanStart settings ∧ ∃ events, (Slots.init limit).run? events = some slots) ∧
    (∀ events slots, (Slots.init limit).run? events = some slots →
      slots.free + slots.serving + slots.held.toNat = limit ∧ Slots.Balanced events slots) ∧
    ∀ server, Reachable settings server →
      server.slots.serving = server.connections.length ∧
      server.connections.length ≤ limit ∧
      server.slots.free + server.connections.length + server.slots.held.toNat = limit ∧
      ∀ clock,
        (CanAccept clock server ↔ server.connections.length < limit) ∧
        (∀ i c, server.connections[i]? = some c → c.isFinished = true ∨ c.isBroken = true →
          ∃ next, Step clock server next ∧ next.connections = server.connections.eraseIdx i ∧
            next.slots.free = server.slots.free + 1) ∧
        ∀ next, Step clock server next → SlotChange server next := by
  intro settings limit
  refine ⟨Settings.toNat_atLeastOne _, fun slots => ⟨?_, ?_⟩, ?_, ?_⟩
  -- the slots of servers are those that come about in some order of events, and no others
  · rintro ⟨server, hserver, rfl⟩
    exact ⟨canStart_of_reachable hserver, (slotted_of_reachable hserver).run⟩
  · rintro ⟨hstart, events, hrun⟩
    obtain ⟨server, hserver, -, hslots⟩ := exists_reachable_of_run hstart hrun
    exact ⟨server, hserver, hslots⟩
  · intro events slots hrun
    exact ⟨Slots.total_run hrun, Slots.balanced_run hrun⟩
  · intro server hserver
    have hslotted := slotted_of_reachable hserver
    have htotal := hslotted.total
    refine ⟨hslotted.serving, by omega, htotal, fun clock => ⟨?_, ?_, ?_⟩⟩
    · exact hslotted.canAccept_iff clock
    · intro i c hc hf
      exact hslotted.exists_ended clock hc hf
    · intro next hstep
      exact slotChange_of_step hstep

/-- A command line that gives a limit of zero connections. -/
def noConnections : Settings.Overrides := { Settings.Overrides.empty with maxConnections := some 0 }

/-- A limit of zero lets one connection in, and the next one when that one is over, also after an
accept that failed. -/
theorem slots_are_kept_single :
    (∃ server, Reachable (.resolve noConnections .empty) server ∧
      server.connections.length = 1 ∧ ¬ CanAccept ⟨0, Connection.epoch⟩ server) ∧
    ∃ server, Reachable (.resolve noConnections .empty) server ∧
      server.connections.length = 0 ∧ CanAccept ⟨0, Connection.epoch⟩ server := by
  obtain ⟨-, hreached, -, hserver⟩ := slots_are_kept noConnections .empty
  obtain ⟨full, hfull, hslots⟩ := (hreached ⟨0, false, 1⟩).mpr
    ⟨by decide, [.taken, .accepted], by decide⟩
  obtain ⟨again, hagain, hslots'⟩ := (hreached ⟨1, false, 0⟩).mpr
    ⟨by decide, [.taken, .accepted, .ended, .taken, .acceptFailed], by decide⟩
  obtain ⟨hserving, -, -, hsteps⟩ := hserver full hfull
  obtain ⟨hserving', -, -, hsteps'⟩ := hserver again hagain
  rw [hslots] at hserving
  rw [hslots'] at hserving'
  refine ⟨⟨full, hfull, hserving.symm, ?_⟩, again, hagain, hserving'.symm, ?_⟩
  · rw [(hsteps _).1, ← hserving]
    decide
  · rw [(hsteps' _).1, ← hserving']
    decide

end Server
end EchoServer
