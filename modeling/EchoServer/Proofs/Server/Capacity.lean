import EchoServer.Launch
import EchoServer.Proofs.Connection.Groups
import EchoServer.Proofs.Connection.Queues
import EchoServer.Proofs.Except
import EchoServer.Proofs.Server.Slots

namespace EchoServer

namespace Settings

/-- What the file gives that the command line names; nothing if it names none. -/
def FromFile.Named (files : String → Except String (List UInt8)) (o : Overrides)
    (f : FromFile) : Prop :=
  match o.config with
  | none => f = .empty
  | some path => FromFile.ofContent path (files path) = .ok f

section
variable {files : String → Except String (List UInt8)} {arguments : List String} {s : Settings}

/-- What is loaded is resolved from an accepted command line and the file that it names. -/
theorem exists_of_load (h : load files arguments = .ok s) :
    ∃ o f, Overrides.ofArguments arguments = .ok o ∧ FromFile.Named files o f ∧
      s = resolve o f := by
  unfold load at h
  cases hline : Overrides.ofArguments arguments with
  | error e =>
    rw [hline] at h
    cases h
  | ok o =>
    rw [hline] at h
    dsimp only at h
    cases hconfig : o.config with
    | none =>
      rw [hconfig] at h
      refine ⟨o, .empty, rfl, ?_, (Except.ok.inj h).symm⟩
      rw [FromFile.Named, hconfig]
    | some path =>
      rw [hconfig] at h
      dsimp only at h
      cases hfile : FromFile.ofContent path (files path) with
      | error e =>
        rw [hfile] at h
        cases h
      | ok f =>
        rw [hfile] at h
        refine ⟨o, f, rfl, ?_, (Except.ok.inj h).symm⟩
        rw [FromFile.Named, hconfig]
        exact hfile

/-- The program is set up with what is loaded, unless there are too many connections. -/
theorem launch_of_load (h : load files arguments = .ok s)
    (hworkers : ∀ n, s.workers = some n → n.toNat ≤ maxWorkers) :
    launch files arguments =
      if s.maxConnections.toNat ≤ maxPermits then .ok s
      else .error (.tooLarge "connections") := by
  have hfew : ¬ (s.workers.any fun n => maxWorkers < n.toNat) = true := by
    rw [Option.any_eq_true_iff_get]
    rintro ⟨hsome, hmany⟩
    have hle := hworkers _ (Option.some_get hsome).symm
    exact Nat.not_lt.mpr hle (of_decide_eq_true hmany)
  rw [launch, h]
  dsimp only
  rw [checkLimits, if_neg hfew]
  rfl

end
end Settings

namespace Server

open Connection (CanQueue Clock IsStreaming Move Phase Provided State epoch move_taken poll_sent
  readBack)
open Wire (Received)

section
variable {settings : Settings} {server : Server}

/-- A server provides all its connections with the same number of places. -/
structure Provides (places : Nat) (server : Server) : Prop where
  buffer : max server.streamBuffer 1 = places
  connections : ∀ c ∈ server.connections, Provided places c

theorem provides_step {clock : Clock} {places : Nat} {next : Server}
    (hstep : Step clock server next) (h : Provides places server) : Provides places next := by
  have hlasting : Lasting clock server (Provided places) := {
    accepted := h.buffer ▸ Connection.provided_init server.streamBuffer true
    received := fun c bytes hc => ⟨hc.capacity, hc.streaming⟩
    inputClosed := fun c hc => ⟨hc.capacity, hc.streaming⟩
    dropped := fun c hc => ⟨hc.capacity, hc.streaming⟩
    moved := fun c b hc hmove => Connection.provided_move hmove hc }
  refine ⟨?_, hlasting.step h.connections hstep⟩
  cases hstep <;> exact h.buffer

theorem provides_of_reachable (h : Reachable settings server) :
    Provides (max settings.streamBuffer.toNat 1) server := by
  induction h with
  | init => exact ⟨rfl, fun c hc => absurd hc List.not_mem_nil⟩
  | step clock _ hstep ih => exact provides_step hstep ih

end

/-- A server with these settings can come to have a connection that breaks down in a call of the
method. -/
def Breaks (settings : Settings) (m : Method) : Prop :=
  ∃ server, Reachable settings server ∧ ∃ c ∈ server.connections, c.isBroken = true ∧
    ∃ metadata work watch, c.phase = .work ⟨m, metadata⟩ work watch

/-- The server with a single connection that is in this phase and has that much to read. -/
def hearing (settings : Settings) (phase : Phase) (rest : List UInt8) : Server :=
  serving settings
    ({ State.init settings.streamBuffer.toNat true with inbox := ⟨rest, [], false⟩, phase }, .empty)

section
variable {settings : Settings}

theorem reachable_hearing (hstart : CanStart settings) (h : 0 < settings.maxConnections.toNat)
    (bytes : List UInt8) (hbytes : bytes ≠ []) :
    Reachable settings (hearing settings .idle bytes) := by
  let clock : Clock := ⟨0, epoch⟩
  have hreceived := (reachable_accepted clock hstart h).received clock bytes
  exact hreceived.moved ((move_taken clock .empty _ bytes hbytes).step rfl)

/-- The connection reads the next frame that was sent. -/
theorem Reachable.hears {phase : Phase} {f : ClientFrame} {rest : List UInt8}
    (h : Reachable settings (hearing settings phase (Wire.encode f.toJson ++ rest)))
    (hphase : phase.isStream = false) (k : Received ClientFrame → Phase)
    (hk : ∀ s : State, s.phase = phase → s.queued = none → s.reads? = some k)
    (hdepth : f.toJson.depth < 128) (hsmall : f.toJson.print.length ≤ Wire.maxFrameSize) :
    Reachable settings (hearing settings (k (.frame (readBack f))) rest) := by
  let s : State := { State.init settings.streamBuffer.toNat true with
    inbox := ⟨Wire.encode f.toJson ++ rest, [], false⟩, phase }
  have hmove : Move ⟨0, epoch⟩ (s, .empty) _ :=
    .read s .empty 0 k _ _ (hk s rfl rfl) (poll_sent f rest hdepth hsmall)
  exact h.moved (hmove.step (Connection.whole_of_phase rfl hphase))

theorem breaks_of_hearing {m : Method} {work : Connection.Work} {watch : Connection.Watch}
    {rest : List UInt8} (hlarge : maxPermits < settings.streamBuffer.toNat)
    (hstream : (Phase.work ⟨m, .empty⟩ work watch).isStream = true)
    (h : Reachable settings (hearing settings (.work ⟨m, .empty⟩ work watch) rest)) :
    Breaks settings m := by
  refine ⟨_, h, _, List.mem_singleton_self _, ?_, _, _, _, rfl⟩
  rw [Connection.isBroken_iff]
  refine ⟨hstream, ?_⟩
  intro hplaces
  have hle : max settings.streamBuffer.toNat 1 ≤ maxPermits := hplaces.2
  omega

theorem reads?_idle (s : State) (hp : s.phase = .idle) (hq : s.queued = none) :
    s.reads? = some Connection.onIdle := by
  rw [State.reads?, hp, hq]
  rfl

theorem reads?_gather {call : Connection.Call} {body : Option Json} (s : State)
    (hp : s.phase = .gather call body) : s.reads? = some (Connection.onGather call body) := by
  rw [State.reads?, hp]

/-- The queue of `Chat` is to be made when the call has come. -/
theorem breaks_chat (hstart : CanStart settings) (h : 0 < settings.maxConnections.toNat)
    (hlarge : maxPermits < settings.streamBuffer.toNat) : Breaks settings .chat := by
  let call : ClientFrame := .call "Chat" .empty
  have hpath : Method.ofPath? "Chat" = some .chat := by decide +kernel
  have hsent := reachable_hearing hstart h (Wire.encode call.toJson ++ []) (by decide +kernel)
  have hcalled :=
    hsent.hears rfl Connection.onIdle reads?_idle (by decide +kernel) (by decide +kernel)
  have hphase : Connection.onIdle (.frame (readBack call)) =
      .work ⟨.chat, .empty⟩ (.stream ⟨.listen, [], true⟩) .off := by
    show Connection.startCall "Chat" .empty = _
    rw [Connection.startCall, hpath]
  rw [hphase] at hcalled
  exact breaks_of_hearing hlarge rfl hcalled

/-- The queue of `Expand` is to be made when the whole request has come. -/
theorem breaks_expand (hstart : CanStart settings) (h : 0 < settings.maxConnections.toNat)
    (hlarge : maxPermits < settings.streamBuffer.toNat) : Breaks settings .expand := by
  let call : ClientFrame := .call "Expand" .empty
  let request : ClientFrame := .message (.object [])
  let ending : ClientFrame := .halfClose
  have hpath : Method.ofPath? "Expand" = some .expand := by decide +kernel
  have hsent := reachable_hearing hstart h (Wire.encode call.toJson ++
    (Wire.encode request.toJson ++ (Wire.encode ending.toJson ++ []))) (by decide +kernel)
  have hcalled :=
    hsent.hears rfl Connection.onIdle reads?_idle (by decide +kernel) (by decide +kernel)
  have hphase : Connection.onIdle (.frame (readBack call)) =
      .gather ⟨.expand, .empty⟩ none := by
    show Connection.startCall "Expand" .empty = _
    rw [Connection.startCall, hpath]
  rw [hphase] at hcalled
  have hasked := hcalled.hears rfl (Connection.onGather ⟨.expand, .empty⟩ none)
    (fun s hp _ => reads?_gather s hp) (by decide +kernel) (by decide +kernel)
  -- the body of the request does not matter: the queue comes before it is looked at
  have hended := Reachable.hears (f := ending) hasked rfl (Connection.onGather ⟨.expand, .empty⟩ _)
    (fun s hp _ => reads?_gather s hp) (by decide +kernel) (by decide +kernel)
  exact breaks_of_hearing hlarge rfl hended

/-- Connections break down in the calls that have streams, and only if queues with that many places
cannot be made. -/
theorem breaks_iff (hslots : 0 < settings.maxConnections.toNat)
    (hbuffer : 0 < settings.streamBuffer.toNat) (m : Method) :
    Breaks settings m ↔
      IsStreaming m ∧ CanStart settings ∧ maxPermits < settings.streamBuffer.toNat := by
  constructor
  · intro h
    obtain ⟨server, hserver, c, hc, hbroken, metadata, work, watch, hphase⟩ := h
    obtain ⟨hcapacity, hstreaming⟩ := (provides_of_reachable hserver).connections c hc
    obtain ⟨hstream, hplaces⟩ := (Connection.isBroken_iff c).mp hbroken
    obtain ⟨call, t, watch', hwork⟩ := (Connection.isStream_iff c.phase).mp hstream
    -- the call of the stream is the one that the connection is in
    obtain ⟨rfl, -, -⟩ := Phase.work.inj (hwork.symm.trans hphase)
    refine ⟨hstreaming _ t watch' hwork, canStart_of_reachable hserver, ?_⟩
    apply Nat.lt_of_not_le
    intro hle
    apply hplaces
    rw [hcapacity, Nat.max_eq_left hbuffer]
    exact ⟨hbuffer, hle⟩
  · intro h
    obtain ⟨hstreaming, hstart, hlarge⟩ := h
    rcases hstreaming with rfl | rfl
    · exact breaks_chat hstart hslots hlarge
    · exact breaks_expand hstart hslots hlarge

end

/-- The limits of settings that are loaded without a number of workers. -/
theorem exists_of_limits {files : String → Except String (List UInt8)} {arguments : List String}
    {slots places : UInt64} (h : (Settings.load files arguments).toOption.map (fun s =>
      (s.maxConnections, s.streamBuffer, s.workers)) = some (slots, places, none)) :
    ∃ s, Settings.load files arguments = .ok s ∧ s.maxConnections.toNat = slots.toNat ∧
      s.streamBuffer.toNat = places.toNat ∧
      ∀ n, s.workers = some n → n.toNat ≤ maxWorkers := by
  obtain ⟨s, hload, hlimits⟩ := exists_of_toOption h
  simp only [Prod.mk.injEq] at hlimits
  obtain ⟨hslots, hplaces, hworkers⟩ := hlimits
  refine ⟨s, hload, congrArg UInt64.toNat hslots, congrArg UInt64.toNat hplaces, ?_⟩
  intro n hn
  cases hworkers.symm.trans hn

/-- A file with a limit of zero connections, and with one place more than a queue can have. -/
def roomyFile : List UInt8 :=
  "[server]\nmax_connections = 0\nstream_buffer = 2305843009213693952".toUTF8.data.toList

/-- Loaded limits are at least one, and nothing keeps them from being too large. With too many slots
the program is not set up; with too many places it is, and calls with streams break connections. -/
theorem loaded_settings_served_iff {files : String → Except String (List UInt8)}
    {arguments : List String} {s : Settings} (h : Settings.load files arguments = .ok s) :
    (∃ o f, Settings.Overrides.ofArguments arguments = .ok o ∧
      Settings.FromFile.Named files o f ∧
      s.maxConnections.toNat = max ((o.maxConnections.or f.maxConnections).getD 10000).toNat 1 ∧
      s.streamBuffer.toNat = max ((o.streamBuffer.or f.streamBuffer).getD 16).toNat 1) ∧
    (CanServe s ↔ s.maxConnections.toNat ≤ maxPermits ∧ s.streamBuffer.toNat ≤ maxPermits) ∧
    ((∀ n, s.workers = some n → n.toNat ≤ maxWorkers) →
      launch files arguments =
        if s.maxConnections.toNat ≤ maxPermits then .ok s else .error (.tooLarge "connections")) ∧
    (∀ m : Method, Breaks s m ↔ (m = .chat ∨ m = .expand) ∧
      s.maxConnections.toNat ≤ maxPermits ∧ maxPermits < s.streamBuffer.toNat) ∧
    (∀ server, Reachable s server → ∀ c ∈ server.connections,
      (s.streamBuffer.toNat ≤ maxPermits → c.isBroken = false) ∧
      (c.isBroken = true → ∀ clock, Connection.Still clock (c, server.registry) ∧
        Connection.settle clock (c, server.registry) = (c, server.registry))) := by
  obtain ⟨o, f, hline, hfile, hs⟩ := Settings.exists_of_load h
  have hslots : s.maxConnections.toNat =
      max ((o.maxConnections.or f.maxConnections).getD 10000).toNat 1 := by
    rw [hs]
    exact Settings.toNat_atLeastOne _
  have hbuffer : s.streamBuffer.toNat =
      max ((o.streamBuffer.or f.streamBuffer).getD 16).toNat 1 := by
    rw [hs]
    exact Settings.toNat_atLeastOne _
  have hslotsPos : 1 ≤ s.maxConnections.toNat := by omega
  have hbufferPos : 1 ≤ s.streamBuffer.toNat := by omega
  refine ⟨⟨o, f, hline, hfile, hslots, hbuffer⟩, ?_, Settings.launch_of_load h,
    breaks_iff hslotsPos hbufferPos, ?_⟩
  · rw [CanServe, and_iff_right hslotsPos]
    exact and_congr_right fun _ => and_iff_right hbufferPos
  · intro server hserver c hc
    have hprovided := (provides_of_reachable hserver).connections c hc
    rw [Nat.max_eq_left hbufferPos] at hprovided
    constructor
    · intro hsmall
      exact hprovided.whole ⟨hbufferPos, hsmall⟩
    · intro hbroken clock
      exact ⟨Connection.still_of_isBroken hbroken, Connection.settle_of_isBroken hbroken⟩

/-- With that file one connection is served at a time, and it breaks down in `Chat` but not in
`Echo`. -/
theorem loaded_settings_served_iff_roomy :
    ∃ s, Settings.load (fun _ => .ok roomyFile) ["-c", "echo.toml"] = .ok s ∧
      s.maxConnections.toNat = 1 ∧
      launch (fun _ => .ok roomyFile) ["-c", "echo.toml"] = .ok s ∧
      ¬ CanServe s ∧ Breaks s .chat ∧ ¬ Breaks s .echo := by
  have hlimits : (Settings.load (fun _ => .ok roomyFile) ["-c", "echo.toml"]).toOption.map
      (fun s => (s.maxConnections, s.streamBuffer, s.workers)) =
        some (1, 2305843009213693952, none) := by decide +kernel
  obtain ⟨s, hload, hslots, hplaces, hworkers⟩ := exists_of_limits hlimits
  obtain ⟨-, hserve, hlaunch, hbreaks, -⟩ := loaded_settings_served_iff hload
  have hset := hlaunch hworkers
  rw [hslots, if_pos (by decide)] at hset
  rw [hslots, hplaces] at hserve hbreaks
  refine ⟨s, hload, hslots, hset, ?_, (hbreaks .chat).mpr (by decide), ?_⟩
  · intro hserves
    exact absurd (hserve.mp hserves).2 (by decide)
  · intro hecho
    exact absurd ((hbreaks .echo).mp hecho) (by decide)

/-- One connection more than there can be slots, and one place more than a queue can have, are both
accepted. -/
theorem accepted_limits_too_large :
    (∃ s, Settings.load (fun _ => .error "")
        ["--max-connections", "2305843009213693952", "--listen", "nonsense"] = .ok s ∧
      ¬ CanServe s ∧ launch (fun _ => .error "")
        ["--max-connections", "2305843009213693952", "--listen", "nonsense"] =
          .error (.tooLarge "connections")) ∧
    ∃ s, Settings.load (fun _ => .error "") ["--stream-buffer", "2305843009213693952"] = .ok s ∧
      ¬ CanServe s ∧
      launch (fun _ => .error "") ["--stream-buffer", "2305843009213693952"] = .ok s ∧
      Breaks s .chat ∧ Breaks s .expand := by
  have hcrowded : (Settings.load (fun _ => .error "")
      ["--max-connections", "2305843009213693952", "--listen", "nonsense"]).toOption.map
      (fun s => (s.maxConnections, s.streamBuffer, s.workers)) =
        some (2305843009213693952, 16, none) := by decide +kernel
  have hroomy : (Settings.load (fun _ => .error "")
      ["--stream-buffer", "2305843009213693952"]).toOption.map
      (fun s => (s.maxConnections, s.streamBuffer, s.workers)) =
        some (10000, 2305843009213693952, none) := by decide +kernel
  constructor
  · obtain ⟨s, hload, hslots, -, hworkers⟩ := exists_of_limits hcrowded
    refine ⟨s, hload, ?_, ?_⟩
    · intro hserves
      have hle : s.maxConnections.toNat ≤ maxPermits := hserves.1
      rw [hslots] at hle
      exact absurd hle (by decide)
    · rw [Settings.launch_of_load hload hworkers, hslots]
      exact if_neg (by decide)
  · obtain ⟨s, hload, hslots, hplaces, hworkers⟩ := exists_of_limits hroomy
    have hstart : CanStart s := by
      rw [CanStart, hslots]
      decide
    have hopen : 0 < s.maxConnections.toNat := by
      rw [hslots]
      decide
    have hlarge : maxPermits < s.streamBuffer.toNat := by
      rw [hplaces]
      decide
    refine ⟨s, hload, ?_, ?_, breaks_chat hstart hopen hlarge,
      breaks_expand hstart hopen hlarge⟩
    · intro hserves
      exact absurd hserves.2.2.2 (Nat.not_le.mpr hlarge)
    · rw [Settings.launch_of_load hload hworkers, hslots]
      exact if_pos (by decide)

end Server
end EchoServer
