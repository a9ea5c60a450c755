import EchoServer.Proofs.Connection.Interleaving

namespace EchoServer.Connection

open Json

/-- A call as its peer sends it. -/
structure CallGroup where
  path : String
  metadata : Metadata
  /-- The bodies of its messages. -/
  bodies : List Json
  /-- Whether it ends with `cancel`, not with `half_close`. -/
  cancelled : Bool

namespace CallGroup

/-- The last frame of a group. -/
def ending (g : CallGroup) : ClientFrame := if g.cancelled then .cancel else .halfClose

def frames (g : CallGroup) : List ClientFrame :=
  .call g.path g.metadata :: (g.bodies.map .message ++ [g.ending])

/-- What is sent for a group. -/
def bytes (g : CallGroup) : List UInt8 := g.frames.flatMap fun f => Wire.encode f.toJson

/-- The frames of a group are not nested too deep and not too large. -/
def Fits (g : CallGroup) : Prop :=
  ∀ f ∈ g.frames, f.toJson.depth < 128 ∧ f.toJson.print.length ≤ Wire.maxFrameSize

end CallGroup

/-- A frame as it is read: a body comes with its keys in order and its numbers as they are
spelled. -/
def readBack : ClientFrame → ClientFrame
  | .message body => .message (reread body).canonical
  | f => f

/-- What is read of a frame is a frame of the same kind, with the body as it is spelled. -/
theorem exists_reread (f : ClientFrame) : ∃ f' : ClientFrame, reread f.toJson = f'.toJson ∧
    f'.canonical = readBack f := by
  cases f with
  | call path metadata =>
    refine ⟨.call path metadata, ?_, rfl⟩
    simp [ClientFrame.toJson, reread, rereadMembers, metadata.reread_toJson]
  | message body => exact ⟨.message (reread body), rfl, rfl⟩
  | halfClose => exact ⟨.halfClose, rfl, rfl⟩
  | cancel => exact ⟨.cancel, rfl, rfl⟩

theorem ofText_readBack (f : ClientFrame) (hdepth : f.toJson.depth < 128) :
    ClientFrame.decoder.ofText f.toJson.print = .ok (readBack f) := by
  obtain ⟨f', hf', hcanonical⟩ := exists_reread f
  have hfits : Place.text.Fits f'.toJson.depth := fun _ => by
    rw [← hf', depth_reread]
    exact hdepth
  rw [ofText_print ClientFrame.decoder, hf', f'.decoder_toJson .text hfits,
    hcanonical]

theorem spelled_readBack (f : ClientFrame) (hdepth : f.toJson.depth < 128)
    (hsmall : f.toJson.print.length ≤ Wire.maxFrameSize) :
    Wire.Spelled ClientFrame.decoder f.toJson (readBack f) :=
  ⟨hsmall, ofText_readBack f hdepth⟩

/-- Whoever waits for a frame gets the next one that was sent. -/
theorem poll_sent (f : ClientFrame) (rest : List UInt8) (hdepth : f.toJson.depth < 128)
    (hsmall : f.toJson.print.length ≤ Wire.maxFrameSize) :
    Wire.Inbox.poll ClientFrame.decoder 0 ⟨Wire.encode f.toJson ++ rest, [], false⟩ =
      some (some (.frame (readBack f)), ⟨rest, [], false⟩) := by
  have hparse := Wire.parse_encode ClientFrame.decoder _ _ rest hsmall (ofText_readBack f hdepth)
  exact (Wire.poll_eq_frame_iff _ _ _ _ _).mpr ⟨_, _, hparse, rfl⟩

/-- A new connection, with that much of the stream still to be read. -/
def reading (rest : List UInt8) (phase : Phase) : State :=
  { State.init 16 true with inbox := ⟨rest, [], false⟩, phase }

/-- All that has arrived is taken at once. -/
theorem move_taken (clock : Clock) (registry : Registry) (capacity : Nat) (bytes : List UInt8)
    (hbytes : bytes ≠ []) : Move clock ((State.init capacity true).receive bytes, registry)
      ({ State.init capacity true with inbox := ⟨bytes, [], false⟩ }, registry) := by
  have htake : ((State.init capacity true).receive bytes).inbox.take bytes.length =
      ⟨bytes, [], false⟩ := by
    simp [State.init, State.receive, Wire.Inbox.receive, Wire.Inbox.take, Wire.Inbox.empty]
  have hfetch : Move clock ((State.init capacity true).receive bytes, registry) _ :=
    .fetch _ _ bytes.length (.of_reads? rfl) rfl hbytes (List.length_pos_of_ne_nil hbytes)
  rwa [htake] at hfetch

theorem move_fetched (clock : Clock) (registry : Registry) (bytes : List UInt8)
    (hbytes : bytes ≠ []) : Move clock ((State.init 16 true).receive bytes, registry)
      (reading bytes .idle, registry) :=
  move_taken clock registry 16 bytes hbytes

/-- The values that are sent for a group, with the frames that are read of them. -/
def CallGroup.sent (g : CallGroup) : List (Json × ClientFrame) :=
  g.frames.map fun f => (f.toJson, readBack f)

/-- The frames of a group as they are read. -/
def CallGroup.received (g : CallGroup) : List ClientFrame := g.frames.map readBack

theorem sent_spelled (groups : List CallGroup) (h : ∀ g ∈ groups, g.Fits) :
    ∀ p ∈ groups.flatMap CallGroup.sent, Wire.Spelled ClientFrame.decoder p.1 p.2 := by
  intro p hp
  obtain ⟨g, hg, hp⟩ := List.mem_flatMap.mp hp
  obtain ⟨f, hf, rfl⟩ := List.mem_map.mp hp
  obtain ⟨hdepth, hsmall⟩ := h g hg f hf
  exact spelled_readBack f hdepth hsmall

theorem sent_received (groups : List CallGroup) :
    (groups.flatMap CallGroup.sent).map (·.2) = groups.flatMap CallGroup.received := by
  simp only [List.map_flatMap, CallGroup.sent, List.map_map]
  rfl

theorem sent_bytes (groups : List CallGroup) :
    ((groups.flatMap CallGroup.sent).flatMap fun p => Wire.encode p.1) =
      groups.flatMap CallGroup.bytes := by
  simp only [List.flatMap_assoc, CallGroup.sent, List.flatMap_map]
  rfl

theorem received_eq (g : CallGroup) :
    g.received = .call g.path g.metadata ::
      ((g.bodies.map fun b => .message (reread b).canonical) ++ [g.ending]) := by
  have hend : readBack g.ending = g.ending := by
    unfold CallGroup.ending
    split <;> rfl
  simp only [CallGroup.received, CallGroup.frames, List.map_cons, List.map_append, List.map_map,
    List.map_nil, hend]
  rfl

theorem inGroups_ending (g : CallGroup) (fs : List ClientFrame) (h : InGroups false fs) :
    InGroups true (g.ending :: fs) := by
  unfold CallGroup.ending
  split
  · exact ⟨rfl, h⟩
  · exact ⟨rfl, h⟩

theorem inGroups_messages (bodies : List Json) (fs : List ClientFrame) (h : InGroups true fs) :
    InGroups true ((bodies.map ClientFrame.message) ++ fs) := by
  induction bodies with
  | nil => exact h
  | cons b bodies ih => exact ⟨rfl, ih⟩

theorem inGroups_received (groups : List CallGroup) :
    InGroups false (groups.flatMap CallGroup.received) := by
  induction groups with
  | nil => rfl
  | cons g groups ih =>
    have hmessages := inGroups_messages (g.bodies.map fun b => (reread b).canonical) _
      (inGroups_ending g _ ih)
    rw [List.flatMap_cons, received_eq]
    refine ⟨rfl, ?_⟩
    simpa [Function.comp_def] using hmessages

/-- Serving comes to a whole block, and to a connection that waits for the next call. -/
def IsBlock (v : Served) : Prop := v.phase = .idle ∧ ∃ block : Block, v.frames = block.frames

/-- The frames that are left of a group do not count once its call has ended. -/
theorem serve_leftovers (fs : List ClientFrame) (gs : List Reading)
    (h : ∀ path metadata, .call path metadata ∉ fs) : serve .idle fs gs = some ⟨[], .idle, gs⟩ := by
  induction fs with
  | nil => rfl
  | cons f fs ih =>
    have hrest := ih fun path metadata hm => h path metadata (by simp [hm])
    rw [serve_cons .idle f fs gs rfl]
    cases f with
    | call path metadata => exact absurd (List.mem_cons_self ..) (h path metadata)
    | _ => exact hrest

theorem serve_finish (o : Outcome (Option Json)) (fs : List ClientFrame) (gs : List Reading)
    (h : ∀ path metadata, .call path metadata ∉ fs) :
    serve (finish o) fs gs = some ⟨lastFrames o, .idle, gs⟩ := by
  have hflush : (finish o).flush gs = (Phase.idle.flush gs).map (Served.after (lastFrames o)) := by
    simp [Phase.flush, finish, Served.after]
  rw [serve_after _ _ _ gs gs hflush, serve_leftovers fs gs h]
  simp [Served.after]

theorem no_call_in_rest (bodies : List Json) (f : ClientFrame) (hf : f = .halfClose ∨ f = .cancel)
    (path : String) (metadata : Metadata) :
    .call path metadata ∉ bodies.map ClientFrame.message ++ [f] := by
  rcases hf with rfl | rfl <;> simp

section
variable {bodies : List Json} {f : ClientFrame} {gs : List Reading} {v : Served}

/-- Responses of a stream and the end of its call are a block. -/
theorem isBlock_of_messages (responses : List EchoResponse) (o : Outcome (Option Json)) :
    IsBlock ⟨messages responses ++ lastFrames o, .idle, gs⟩ := by
  refine ⟨rfl, blockOf (responses.map fun y => Service.responseBody y.toJson) o, ?_⟩
  rw [blockOf_frames, List.map_map]
  rfl

theorem isBlock_of_finish (o : Outcome (Option Json)) (hf : f = .halfClose ∨ f = .cancel)
    (h : serve (finish o) (bodies.map .message ++ [f]) gs = some v) : IsBlock v := by
  rw [serve_finish o _ gs (no_call_in_rest bodies f hf)] at h
  obtain rfl := Option.some.inj h
  exact isBlock_of_messages [] o

theorem isBlock_of_end (o : Outcome (Option Json)) (h : serve (finish o) [] gs = some v) :
    IsBlock v := by
  rw [serve_finish o [] gs (by simp)] at h
  obtain rfl := Option.some.inj h
  exact isBlock_of_messages [] o

theorem isBlock_of_work (call : Call) (body : Json) (h : serve (workOf call body) [] gs = some v) :
    IsBlock v := by
  unfold workOf at h
  split at h
  · simp only [serve, Phase.flush, Handler.flush] at h
    cases hr : Service.decodeRequest EchoRequest.decoder body with
    | error e =>
      rw [hr] at h
      obtain rfl := Option.some.inj h
      exact isBlock_of_messages [] _
    | ok r =>
      rw [hr] at h
      obtain rfl := Option.some.inj h
      exact isBlock_of_messages ([] ++ Service.expandResponses r) _
  · cases gs with
    | nil => cases h
    | cons g gs =>
      obtain rfl := Option.some.inj h
      exact isBlock_of_messages [] _

theorem isBlock_of_gather (call : Call) (body : Option Json) (hf : f = .halfClose ∨ f = .cancel)
    (h : serve (.gather call body) (bodies.map .message ++ [f]) gs = some v) : IsBlock v := by
  induction bodies generalizing body with
  | nil =>
    rw [List.map_nil, List.nil_append, serve_cons _ _ _ _ rfl] at h
    rcases hf with rfl | rfl
    · cases body with
      | none => exact isBlock_of_end _ h
      | some b => exact isBlock_of_work call b h
    · exact isBlock_of_end _ h
  | cons b bodies ih =>
    rw [List.map_cons, List.cons_append, serve_cons _ _ _ _ rfl] at h
    cases body with
    | none => exact ih (some b) h
    | some _ => exact isBlock_of_finish _ hf h

theorem isBlock_of_collect (call : Call) (contents : List String)
    (hf : f = .halfClose ∨ f = .cancel)
    (h : serve (.collect call contents) (bodies.map .message ++ [f]) gs = some v) :
    IsBlock v := by
  induction bodies generalizing contents with
  | nil =>
    rw [List.map_nil, List.nil_append, serve_cons _ _ _ _ rfl] at h
    rcases hf with rfl | rfl
    · exact isBlock_of_end _ h
    · exact isBlock_of_end _ h
  | cons b bodies ih =>
    rw [List.map_cons, List.cons_append, serve_cons _ _ _ _ rfl] at h
    cases hr : (Service.decodeRequest EchoRequest.decoder b).bind
        (Service.collectStep contents) with
    | ok contents' =>
      have hcollect : (Phase.collect call contents).onFrame (.message b) =
          .collect call contents' := by
        simp [Phase.onFrame, onCollect, requestOf, hr]
      rw [hcollect] at h
      exact ih contents' h
    | error e =>
      have hreject : (Phase.collect call contents).onFrame (.message b) = reject e := by
        simp [Phase.onFrame, onCollect, requestOf, hr]
      rw [hreject] at h
      exact isBlock_of_finish _ hf h

/-- A response before a block makes a longer block. -/
theorem IsBlock.cons (body : Json) (h : IsBlock v) : IsBlock (v.after [.message body]) := by
  obtain ⟨hp, block, hblock⟩ := h
  exact ⟨hp, { block with bodies := body :: block.bodies }, by
    simp [Served.after, hblock, Block.frames]⟩

/-- A stream that has ended, without responses in its queue, ends the call. -/
theorem flush_done (call : Call) (result : Except Status Unit) (gs : List Reading) :
    (Phase.work call (.stream ⟨.done result, [], true⟩) .off).flush gs =
      (streamEnd call result).flush gs := rfl

theorem isBlock_of_listening (call : Call) (hf : f = .halfClose ∨ f = .cancel)
    (h : serve (listening call) (bodies.map .message ++ [f]) gs = some v) : IsBlock v := by
  have hdone (result : Except Status Unit) (fs : List ClientFrame) (gs : List Reading) :
      serve (.work call (.stream ⟨.done result, [], true⟩) .off) fs gs =
        serve (streamEnd call result) fs gs := by
    rw [serve_after _ (streamEnd call result) [] gs gs
      (by rw [flush_done, map_after_nil]), map_after_nil]
  induction bodies generalizing v with
  | nil =>
    rw [List.map_nil, List.nil_append, serve_cons _ _ _ _ rfl] at h
    rcases hf with rfl | rfl
    · exact isBlock_of_end _ ((hdone _ _ _).symm.trans h)
    · exact isBlock_of_end _ ((hdone _ _ _).symm.trans h)
  | cons b bodies ih =>
    rw [List.map_cons, List.cons_append, serve_cons _ _ _ _ rfl] at h
    have honFrame : (listening call).onFrame (.message b) =
        .work call (.stream ⟨onListen (.frame (.message b)), [], true⟩) .off := rfl
    rw [honFrame] at h
    cases hr : (Service.decodeRequest EchoRequest.decoder b).bind Service.chatStep with
    | ok y =>
      have hlisten : onListen (.frame (.message b)) = .reply y := by
        simp [onListen, requestOf, hr]
      rw [hlisten, serve_after _ (listening call) (messages [y]) gs gs
        (by simp [Phase.flush, Handler.flush, listening, Served.after, messages])] at h
      obtain ⟨w, hw, rfl⟩ := Option.map_eq_some_iff.mp h
      exact (ih hw).cons _
    | error e =>
      have hlisten : onListen (.frame (.message b)) = .done (.error e) := by
        simp [onListen, requestOf, hr]
      rw [hlisten, hdone] at h
      exact isBlock_of_finish _ hf h

end

theorem isBlock_of_received (g : CallGroup) (gs : List Reading) (v : Served)
    (h : serve .idle g.received gs = some v) : IsBlock v := by
  have hending : g.ending = .halfClose ∨ g.ending = .cancel := by
    unfold CallGroup.ending
    split
    · exact Or.inr rfl
    · exact Or.inl rfl
  have hbodies : (g.bodies.map fun b => ClientFrame.message (reread b).canonical) =
      (g.bodies.map fun b => (reread b).canonical).map .message := by
    simp
  rw [received_eq, hbodies, serve_cons _ _ _ _ rfl] at h
  -- the method decides in which phase the rest of the group is met
  have honFrame : Phase.idle.onFrame (.call g.path g.metadata) = startCall g.path g.metadata := rfl
  rw [honFrame] at h
  unfold startCall at h
  split at h
  · exact isBlock_of_finish _ hending h
  · exact isBlock_of_collect _ _ hending h
  · exact isBlock_of_listening _ hending h
  · exact isBlock_of_gather _ _ hending h

/-- The block that a group is answered with, and what was looked at for it. -/
structure Reply where
  readings : List Reading
  block : Block

/-- Serving groups comes to a reply for each of them, which is what serving it alone comes to. -/
theorem exists_replies (groups : List CallGroup) (gs : List Reading) (v : Served)
    (h : serve .idle (groups.flatMap CallGroup.received) gs = some v) :
    ∃ replies : List Reply, replies.length = groups.length ∧
      gs = replies.flatMap (·.readings) ++ v.readings ∧
      v.frames = replies.flatMap (·.block.frames) ∧
      ∀ x ∈ groups.zip replies,
        serve .idle x.1.received x.2.readings = some ⟨x.2.block.frames, .idle, []⟩ := by
  induction groups generalizing gs v with
  | nil =>
    obtain rfl := Option.some.inj h
    exact ⟨[], rfl, rfl, rfl, by simp⟩
  | cons g groups ih =>
    rw [List.flatMap_cons, serve_append, Option.bind_eq_some_iff] at h
    obtain ⟨w, hw, hmap⟩ := h
    obtain ⟨u, hu, rfl⟩ := Option.map_eq_some_iff.mp hmap
    -- after its block the connection is idle, so the next group meets a fresh one
    obtain ⟨hidle, block, hblock⟩ := isBlock_of_received g gs w hw
    obtain ⟨used, hused, hlocal⟩ := serve_local _ _ _ _ hw
    rw [hidle] at hu
    obtain ⟨replies, hlen, hreadings, hframes, halone⟩ := ih _ _ hu
    refine ⟨⟨used, block⟩ :: replies, by simp [hlen], ?_, ?_, ?_⟩
    · rw [hused, hreadings, List.flatMap_cons, List.append_assoc]
      rfl
    · rw [List.flatMap_cons, ← hframes, ← hblock]
      rfl
    · intro x hx
      rw [List.zip_cons_cons, List.mem_cons] at hx
      rcases hx with rfl | hx
      · have hnone := hlocal []
        rw [List.append_nil] at hnone
        rw [hnone, hidle, hblock]
      · exact halone x hx

end EchoServer.Connection
