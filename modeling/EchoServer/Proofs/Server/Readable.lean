import EchoServer.Proofs.Connection.Groups
import EchoServer.Proofs.Connection.Limits
import EchoServer.Proofs.Connection.Rest
import EchoServer.Proofs.Server.Runs

namespace EchoServer

open Connection (Clock Move Run State epoch lookedAt move_fetched ofText_readBack poll_sent
  readBack reading run unknownMethod)

/-- What becomes of a frame at a peer that reads by the rules of the server, and which frames are
nested too deep for it. -/
structure ServerFrame.Readable (f : ServerFrame) : Prop where
  read : ∀ rest, Wire.parse ServerFrame.decoder (Wire.encode f.toJson ++ rest) =
    if Wire.maxFrameSize < f.toJson.print.length then .error (Wire.oversize f.toJson.print.length)
    else if f.toJson.depth < 128 then .ok (.complete f.reread (Wire.encode f.toJson).length rest)
    else .error (.invalidBody (.notJson .tooDeep))
  deep : 128 ≤ f.toJson.depth → f.toJson.depth = 128 ∧ ∃ (o : Operation) (s : Status),
    f = .message (Service.responseBody o.toJson) ∧ o.result = some (.error s) ∧
      s.toJson.depth = 125

theorem ServerFrame.Bounded.readable {f : ServerFrame} (h : f.Bounded) : f.Readable := by
  refine ⟨fun rest => ?_, fun hdeep => ?_⟩
  · rw [Wire.parse_encode_serverFrame, f.canonical_reread, h.canonical]
  · have heq : f.toJson.depth = 128 := Nat.le_antisymm h.depth.1 hdeep
    exact ⟨heq, h.depth.2 heq⟩

namespace Server

/-- What a server holds and has begun to write is nested moderately. -/
structure Bounded (s : Server) : Prop where
  registry : s.registry.Shallow
  connections : ∀ c ∈ s.connections, c.Bounded

theorem registry_of_lookedAt {clock : Clock} {r : Registry} {s t : State} :
    ∀ g ∈ lookedAt clock r s t, g.registry = r := by
  intro g hg
  unfold lookedAt at hg
  split at hg
  · cases hg
  · obtain rfl := List.mem_singleton.mp hg
    rfl
  · cases hg

theorem bounded_init (streamBuffer : Nat) (reads : Bool) :
    (State.init streamBuffer reads).Bounded :=
  ⟨trivial, fun f hf => by cases hf⟩

theorem bounded_step {clock : Clock} {s t : Server} (hstep : Step clock s t) (h : s.Bounded) :
    t.Bounded := by
  have hlasting : Lasting clock s State.Bounded := {
    accepted := bounded_init _ _
    received := fun c bytes hc => ⟨hc.phase, hc.sent⟩
    inputClosed := fun c hc => ⟨hc.phase, hc.sent⟩
    dropped := fun c hc => ⟨hc.phase, hc.sent⟩
    moved := fun c b hc hmove => Connection.bounded_step hmove
      (fun g hg => registry_of_lookedAt g hg ▸ h.registry) hc }
  refine ⟨?_, hlasting.step h.connections hstep⟩
  cases hstep with
  -- the only step that both reads the registry and changes it
  | moved i hc hmoved =>
    have hmove := hmoved.move
    exact Connection.shallow_step hmove (h.connections _ (List.mem_of_getElem? hc)) h.registry
  | cleaned => exact h.registry.cleanup _ _
  | _ => exact h.registry

theorem bounded_of_reachable {settings : Settings} {s : Server} (h : Reachable settings s) :
    s.Bounded := by
  induction h with
  | init => exact ⟨Registry.shallow_empty, fun c hc => by cases hc⟩
  | step clock _ hstep ih => exact bounded_step hstep ih

/-- As many arrays as that and one more, one in the other. -/
def nested : Nat → Json
  | 0 => .array []
  | n + 1 => .array [nested n]

/-- A call of `Wait` that is to end with an error, nested as deep as a frame allows. -/
def deepWait : List ClientFrame :=
  [.call "Wait" .empty,
    .message (.object [("end_time", .string "1970-01-01T00:00:00Z"),
      ("error", (Status.mk .internal "" [⟨"", nested 121⟩]).toJson)]),
    .halfClose]

/-- What a new connection comes to that receives the call. -/
def deepAnswer : State × Registry :=
  run ⟨0, epoch⟩ 30
    ((State.init 16 true).receive (deepWait.flatMap fun f => Wire.encode f.toJson), .empty)

theorem reachable_deepAnswer : Reachable .default (serving .default deepAnswer) :=
  ((reachable_accepted ⟨0, epoch⟩ (by decide) (by decide)).received ⟨0, epoch⟩ _).run _ _

set_option maxRecDepth 100000 in
theorem exists_deep_frame : ∃ f ∈ deepAnswer.1.outbox.written, f.toJson.depth = 128 ∧
    f.toJson.print.length ≤ Wire.maxFrameSize := by
  have hany : (deepAnswer.1.outbox.written.any fun f =>
      f.toJson.depth = 128 ∧ f.toJson.print.length ≤ Wire.maxFrameSize) = true := by
    decide +kernel
  obtain ⟨f, hf, h⟩ := List.any_eq_true.mp hany
  exact ⟨f, hf, of_decide_eq_true h⟩

/-- What a connection shows to its handlers while nobody else changes the registry. -/
theorem exists_run_of_serving (settings : Settings) (clock : Clock) (n : Nat)
    (start : State × Registry) (h : Connection.History) (a : State × Registry)
    (hrun : Run start h a) (hreach : Reachable settings (serving settings a))
    (hreadings : ∀ g ∈ h.readings, ∃ other : Server, Reachable settings other ∧
      other.registry = g.registry) :
    ∃ h', Run start h' (run clock n a) ∧ ∀ g ∈ h'.readings, ∃ other : Server,
      Reachable settings other ∧ other.registry = g.registry := by
  induction n generalizing h a with
  | zero => exact ⟨h, hrun, hreadings⟩
  | succ n ih =>
    rw [run]
    split
    · exact ⟨h, hrun, hreadings⟩
    · rename_i b hb
      have hstep := Connection.step_of_move hb
      refine ih _ b (.step h a.1 a.2 b.1 b.2 clock hrun hstep)
        (hreach.moved hstep) fun g hg => ?_
      rcases List.mem_append.mp hg with hg | hg
      · exact hreadings g hg
      · exact ⟨_, hreach, (registry_of_lookedAt g hg).symm⟩

theorem exists_run_deepAnswer : ∃ h, Run (State.init 16 true, .empty) h deepAnswer ∧
    ∀ g ∈ h.readings, ∃ other : Server, Reachable .default other ∧
      other.registry = g.registry :=
  exists_run_of_serving .default ⟨0, epoch⟩ 30 _ _ _ (.receive _ _ _ _ .start rfl)
    ((reachable_accepted ⟨0, epoch⟩ (by decide) (by decide)).received ⟨0, epoch⟩ _)
    fun g hg => by cases hg

/-- The bytes between the quotes of a printed string. -/
def printedSize (s : String) : Nat := (Json.utf8 (s.toList.flatMap Json.escapeChar)).length

theorem length_printString (s : String) : (Json.printString s).length = printedSize s + 2 := by
  rw [← List.append_nil (Json.printString s), Json.printString_eq]
  simp [printedSize]

theorem printedSize_append (s t : String) :
    printedSize (s ++ t) = printedSize s + printedSize t := by
  simp only [printedSize, String.toList_append, List.flatMap_append, utf8_append,
    List.length_append]

theorem length_mark {c : Char} (hc : c.toNat < 0x80) : (Json.utf8 [c]).length = 1 := by
  rw [utf8_cons, utf8EncodeChar_of_ascii c hc]
  rfl

theorem length_call (path : String) :
    (ClientFrame.call path .empty).toJson.print.length = printedSize path + 41 := by
  have hwords : printedSize "type" = 4 ∧ printedSize "call" = 4 ∧ printedSize "method" = 6 ∧
      printedSize "metadata" = 8 := by decide +kernel
  obtain ⟨htype, hcall, hmethod, hmetadata⟩ := hwords
  simp only [ClientFrame.toJson, Metadata.toJson, Metadata.empty, Json.print, Json.printMembers,
    Json.printMoreMembers, Json.printItems, List.map_nil, List.length_append, length_printString,
    length_mark (show '\x7b'.toNat < 0x80 by decide),
    length_mark (show '\x7d'.toNat < 0x80 by decide),
    length_mark (show ':'.toNat < 0x80 by decide), length_mark (show ','.toNat < 0x80 by decide),
    length_mark (show '['.toNat < 0x80 by decide), length_mark (show ']'.toNat < 0x80 by decide),
    htype, hcall, hmethod, hmetadata, List.length_nil]
  omega

/-- The refusal of an unknown method quotes its path, and says more around it than the call does. -/
theorem length_unknownMethod (path : String) :
    (ServerFrame.trailers (unknownMethod path) .empty).toJson.print.length =
      (ClientFrame.call path .empty).toJson.print.length + 38 := by
  have hwords : printedSize "type" = 4 ∧ printedSize "trailers" = 8 ∧
      printedSize "status" = 6 ∧ printedSize "code" = 4 ∧ printedSize "message" = 7 ∧
      printedSize "Method " = 7 ∧ printedSize " is not implemented" = 19 := by decide +kernel
  obtain ⟨htype, htrailers, hstatus, hcode, hmessage, hbefore, hbehind⟩ := hwords
  have hnumber : (Json.int32 Code.unimplemented.toInt32).print.length = 2 := by decide +kernel
  have hempty : Metadata.empty.isEmpty = true := rfl
  rw [length_call]
  simp only [ServerFrame.toJson, Status.toJson, unknownMethod, Status.of, hempty, if_true,
    List.isEmpty_nil, List.append_nil, Json.print, Json.printMembers, hnumber,
    Json.printMoreMembers, List.length_append, length_printString, printedSize_append,
    length_mark (show '\x7b'.toNat < 0x80 by decide),
    length_mark (show '\x7d'.toNat < 0x80 by decide),
    length_mark (show ':'.toNat < 0x80 by decide), length_mark (show ','.toNat < 0x80 by decide),
    htype, htrailers, hstatus, hcode, hmessage, hbefore, hbehind]
  omega

theorem printedSize_replicate (n : Nat) :
    printedSize (String.ofList (List.replicate n 'a')) = n := by
  rw [printedSize, String.toList_ofList]
  induction n with
  | zero => rfl
  | succ n ih =>
    have hone : Json.escapeChar 'a' = ['a'] := by decide +kernel
    rw [List.replicate_succ, List.flatMap_cons, hone, utf8_append, List.length_append, ih,
      length_mark (by decide)]
    omega

theorem ofPath?_replicate (n : Nat) (h : 0 < n) :
    Method.ofPath? (String.ofList (List.replicate n 'a')) = none := by
  obtain ⟨n, rfl⟩ := Nat.exists_eq_succ_of_ne_zero (Nat.ne_of_gt h)
  have hsplit (m : Nat) : Method.splitLast (List.replicate m 'a') = none := by
    induction m with
    | zero => rfl
    | succ m ih => simp [List.replicate_succ, Method.splitLast, ih]
  have hname : Method.ofName? (List.replicate (n + 1) 'a') = none := by
    refine List.find?_eq_none.mpr fun m _ => ?_
    cases m <;> simp [Method.name, List.replicate_succ]
  have hplain (cs : List Char) (hcs : Method.splitLast ('a' :: cs) = none)
      (hno : Method.ofName? ('a' :: cs) = none) :
      Method.ofPath? (String.ofList ('a' :: cs)) = none := by
    simp [Method.ofPath?, hcs, hno]
  exact hplain _ (hsplit (n + 1)) hname

/-- A call of a method that there is not is refused, however long its path is. -/
theorem exists_refusal (path : String) (hpath : Method.ofPath? path = none)
    (hsmall : (ClientFrame.call path .empty).toJson.print.length ≤ Wire.maxFrameSize) :
    ∃ a, Reachable .default (serving .default a) ∧
      .trailers (unknownMethod path) .empty ∈ a.1.outbox.written := by
  let clock : Clock := ⟨0, epoch⟩
  let bytes := Wire.encode (ClientFrame.call path .empty).toJson ++ []
  let refusal : ServerFrame := .trailers (unknownMethod path) .empty
  let start := State.init 16 true
  let refusing : State := { start with phase := .close [refusal] }
  let begun : State := { start with outbox := start.outbox.begin refusal, phase := .close [] }
  let refused : State :=
    { start with outbox := { start.outbox with log := [refusal] }, phase := .close [] }
  have hfetch : Move clock (start.receive bytes, .empty) (reading bytes .idle, .empty) :=
    move_fetched clock .empty bytes (by simp [bytes, Wire.encode_eq, Wire.lengthLine_ne_nil])
  have hread : Move clock (reading bytes .idle, .empty) (refusing, .empty) := by
    have hdepth : (ClientFrame.call path .empty).toJson.depth < 128 := by
      simp [ClientFrame.toJson, Metadata.toJson, Metadata.empty, Json.depth, Json.depthMembers,
        Json.depthItems]
    have hphase : Connection.onIdle (.frame (readBack (.call path .empty))) =
        .close [refusal] := by
      simp only [Connection.onIdle, Connection.startCall, readBack, hpath]
      rfl
    have hmove : Move clock (reading bytes .idle, .empty) _ :=
      .read _ .empty 0 _ _ _ rfl (poll_sent (.call path .empty) [] hdepth hsmall)
    rwa [hphase] at hmove
  have hbegin : Move clock (refusing, .empty) (begun, .empty) := .beginLast _ _ refusal [] rfl rfl
  have hwrite : Move clock (begun, .empty) (refused, .empty) :=
    .write begun _ refusal _ _ trivial rfl rfl
  have hreach : Reachable .default (serving .default (start.receive bytes, .empty)) :=
    (reachable_accepted clock (by decide) (by decide)).received clock bytes
  exact ⟨_, (((hreach.moved (hfetch.step rfl)).moved (hread.step rfl)).moved
    (hbegin.step rfl)).moved (hwrite.step rfl),
    List.mem_singleton_self _⟩

/-- The longest path that a call can have. -/
def longPath : String := String.ofList (List.replicate (Wire.maxFrameSize - 41) 'a')

/-- A peer makes of each frame that is written on a connection what there was, or refuses it for its
size or its nesting. -/
theorem written_frames_readable (settings : Settings) (server : Server)
    (h : Reachable settings server) :
    (∀ c ∈ server.connections, ∀ f ∈ c.outbox.written, f.Readable) ∧
    ∀ (capacity : Nat) (reads : Bool) (history : Connection.History) (s : State) (r : Registry),
      Run (State.init capacity reads, server.registry) history (s, r) →
      (∀ g ∈ history.readings, ∃ other : Server, Reachable settings other ∧
        other.registry = g.registry) →
      ∀ f ∈ s.outbox.written, f.Readable := by
  constructor
  · intro c hc f hf
    have hbounded := (bounded_of_reachable h).connections c hc
    exact (hbounded.sent f (List.mem_append_left _ hf)).readable
  · intro capacity reads history s r hrun hreadings f hf
    have hbounded := Connection.bounded_run hrun fun g hg => by
      obtain ⟨other, hother, hregistry⟩ := hreadings g hg
      exact hregistry ▸ (bounded_of_reachable hother).registry
    exact (hbounded.sent f (List.mem_append_left _ hf)).readable

/-- A server that has answered a call of `Wait`, and the same answer on a connection alone. -/
theorem written_frames_readable_wait :
    (∃ f ∈ deepAnswer.1.outbox.written, f.toJson.depth = 128 ∧ f.Readable) ∧
      ∃ history, Run (State.init 16 true, .empty) history deepAnswer ∧
        ∀ f ∈ deepAnswer.1.outbox.written, f.Readable := by
  have hreach := reachable_deepAnswer
  have hframe := exists_deep_frame
  have hrun := exists_run_deepAnswer
  generalize deepAnswer = a at hreach hframe hrun ⊢
  obtain ⟨s, r⟩ := a
  obtain ⟨f, hf, hdepth, -⟩ := hframe
  obtain ⟨history, hrun, hreadings⟩ := hrun
  have hserver := (written_frames_readable .default _ hreach).1 s (List.mem_singleton_self s)
  have halone := (written_frames_readable .default _ (.init (by decide))).2 16 true history s r
    hrun hreadings
  exact ⟨⟨f, hf, hdepth, hserver f hf⟩, history, hrun, halone⟩

/-- A peer that is answered what it cannot read: an error that comes back one container deeper than
it was sent, and the path of a call in a frame that says more than the call did. -/
theorem replies_unreadable :
    ((∀ f ∈ deepWait, ∀ rest, Wire.parse ClientFrame.decoder (Wire.encode f.toJson ++ rest) =
        .ok (.complete (readBack f) (Wire.encode f.toJson).length rest)) ∧
      Reachable .default (serving .default deepAnswer) ∧
      ∃ f ∈ deepAnswer.1.outbox.written, f.toJson.print.length ≤ Wire.maxFrameSize ∧
        ∀ rest, Wire.parse ServerFrame.decoder (Wire.encode f.toJson ++ rest) =
          .error (.invalidBody (.notJson .tooDeep))) ∧
    (ClientFrame.call longPath .empty).toJson.print.length = Wire.maxFrameSize ∧
      ∃ a, Reachable .default (serving .default a) ∧
        ∃ f ∈ a.1.outbox.written, f = .trailers (unknownMethod longPath) .empty ∧
          ∀ rest, Wire.parse ServerFrame.decoder (Wire.encode f.toJson ++ rest) =
            .error (.tooLarge (Wire.maxFrameSize + 38)) := by
  have hcall : (ClientFrame.call longPath .empty).toJson.print.length = Wire.maxFrameSize := by
    rw [length_call, longPath, printedSize_replicate]
    rfl
  refine ⟨⟨fun f hf rest => ?_, reachable_deepAnswer, ?_⟩, hcall, ?_⟩
  · have hfits : ∀ f ∈ deepWait, f.toJson.depth < 128 ∧
        f.toJson.print.length ≤ Wire.maxFrameSize := by decide +kernel
    exact Wire.parse_encode ClientFrame.decoder _ _ rest (hfits f hf).2
      (ofText_readBack f (hfits f hf).1)
  · obtain ⟨f, hf, hdepth, hsmall⟩ := exists_deep_frame
    refine ⟨f, hf, hsmall, fun rest => ?_⟩
    rw [Wire.parse_encode_serverFrame, if_neg (Nat.not_lt.mpr hsmall), if_neg (by omega)]
  · have hlength := length_unknownMethod longPath
    rw [hcall] at hlength
    obtain ⟨a, hreach, hwritten⟩ := exists_refusal longPath
      (ofPath?_replicate _ (by decide)) (Nat.le_of_eq hcall)
    refine ⟨a, hreach, _, hwritten, rfl, fun rest => ?_⟩
    rw [Wire.parse_encode_serverFrame, hlength, if_pos (Nat.lt_add_of_pos_right (by decide)),
      Wire.oversize, if_pos (by decide)]

end Server
end EchoServer
