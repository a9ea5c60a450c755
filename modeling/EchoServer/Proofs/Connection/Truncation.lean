import EchoServer.Proofs.Connection.Groups
import EchoServer.Proofs.Connection.Tracked
import EchoServer.Proofs.Wire.Torn

namespace EchoServer.Connection

open Json (Decoder)
open Wire (Front Received)

/-- Behind a call frame stands a call that is broken off before the last byte of its `half_close`.
The bytes `whole` are the call as its peer would have sent it. -/
inductive BrokenOff (stream : List UInt8) : Prop
  /-- Nothing comes behind the cut. -/
  | ended (bodies : List Json) (whole n)
      (hcall : Front ClientFrame.decoder whole (bodies.map .message ++ [.halfClose]) [])
      (hcut : n < whole.length) (h : stream = whole.take n)
  /-- `cancel` or the next call comes in place of the rest. -/
  | replaced (bodies : List Json) (whole n) (f : ClientFrame) (more)
      (hcall : Front ClientFrame.decoder whole (bodies.map .message ++ [.halfClose]) [])
      (hcut : n < whole.length) (hf : f = .cancel ∨ ∃ path metadata, f = .call path metadata)
      (h : stream = whole.take n ++ (Wire.encode f.toJson ++ more))
  /-- What comes behind some of the messages is malformed. It may begin with a part of the next
  frame. -/
  | malformed (bodies : List Json) (messages bad e)
      (hcall : Front ClientFrame.decoder messages (bodies.map .message) [])
      (hbad : Wire.parse ClientFrame.decoder bad = .error e) (h : stream = messages ++ bad)

theorem halfClose_not_mem (bodies : List Json) :
    ClientFrame.halfClose ∉ bodies.map ClientFrame.message := by
  simp

/-- A part of the frames of a call that leaves some of them is without the `half_close`. -/
theorem halfClose_not_mem_front {bodies : List Json} {gs hs : List ClientFrame} (hne : hs ≠ [])
    (h : bodies.map ClientFrame.message ++ [.halfClose] = gs ++ hs) : .halfClose ∉ gs := by
  intro hmem
  rw [← List.dropLast_append_getLast hne, ← List.append_assoc] at h
  obtain ⟨hfront, -⟩ := List.append_inj' h rfl
  refine halfClose_not_mem bodies ?_
  rw [hfront]
  exact List.mem_append_left _ hmem

/-- A call that was read to its end has a further frame behind those without its `half_close`. -/
theorem parse_of_front {stream bad rest : List UInt8} {bodies : List Json} {gs : List ClientFrame}
    (hread : Front ClientFrame.decoder stream (bodies.map .message ++ [.halfClose]) rest)
    (hfront : Front ClientFrame.decoder stream gs bad) (hgs : .halfClose ∉ gs) :
    ∃ g n tail, Wire.parse ClientFrame.decoder bad = .ok (.complete g n tail) ∧
      ((∃ body, g = .message body) ∨ g = .halfClose) := by
  rcases hfront.compare hread with ⟨hs, hall, hnext⟩ | ⟨hs, -, rfl, -⟩
  · cases hnext with
    | nil =>
      refine absurd ?_ hgs
      rw [List.append_nil] at hall
      rw [← hall]
      simp
    | @cons _ _ _ g n hs hp hnext =>
      refine ⟨g, n, _, hp, ?_⟩
      have hg : g ∈ bodies.map ClientFrame.message ++ [.halfClose] := by
        rw [hall]
        simp
      rcases List.mem_append.mp hg with hg | hg
      · obtain ⟨body, -, rfl⟩ := List.mem_map.mp hg
        exact Or.inl ⟨body, rfl⟩
      · exact Or.inr (List.mem_singleton.mp hg)
  · exact absurd (by simp) hgs

/-- `cancel` and calls are read back as they are. -/
theorem ofText_interrupting {f : ClientFrame}
    (hf : f = .cancel ∨ ∃ path metadata, f = .call path metadata) :
    ClientFrame.decoder.ofText f.toJson.print = .ok f := by
  rcases hf with rfl | ⟨path, metadata, rfl⟩
  · exact ofText_readBack .cancel (by decide)
  · refine ofText_readBack (.call path metadata) ?_
    have hdepth := metadata.depth_toJson_le
    simp only [ClientFrame.toJson, Json.depth, Json.depthMembers]
    omega

/-- A call that was read to its end is not broken off. -/
theorem Account.Complete.not_brokenOff {c : Account} {stream : List UInt8} (h : c.Complete)
    (hin : c.In stream) : ¬ BrokenOff (stream.drop c.place) := by
  obtain ⟨m, bodies, -, hreads, -, -⟩ := h
  obtain ⟨rest, hread⟩ := hin.read
  have hframes : c.frames = bodies.map ClientFrame.message ++ [.halfClose] := by
    have hmap : (bodies.map asked).filterMap Received.frame? = bodies.map ClientFrame.message := by
      rw [List.filterMap_map]
      exact congrFun List.filterMap_eq_map bodies
    rw [Account.frames, hreads, List.filterMap_append, hmap]
    rfl
  rw [hframes] at hread
  intro hbroken
  cases hbroken with
  | ended requests whole n hcall hcut hstream =>
    rw [← List.take_append_drop n whole] at hcall
    rw [hstream] at hread
    obtain ⟨hs, hne, hall⟩ := hcall.cut (by simpa using hcut) hread
    exact halfClose_not_mem_front hne hall (by simp)
  | replaced requests whole n f more hcall hcut hf hstream =>
    have hcut' : whole.drop n ≠ [] := by simpa using hcut
    rw [← List.take_append_drop n whole] at hcall
    obtain ⟨front, torn, gs, hs, hsplit, hall, hfront, x, k, lost, tail, hlost, hx, -⟩ :=
      hcall.split hcut'
    -- the frames in front of the cut are without the `half_close`
    have hgs : .halfClose ∉ gs := by
      have hpart : Front ClientFrame.decoder (whole.take n) gs torn := by
        rw [hsplit]
        exact hfront.append torn
      obtain ⟨hs', hne, hall'⟩ := hcall.cut hcut' hpart
      exact halfClose_not_mem_front hne hall'
    rw [hstream, hsplit, List.append_assoc] at hread
    obtain ⟨g, k', tail', hg, hkind⟩ := parse_of_front hread (hfront.append _) hgs
    obtain ⟨members, hobject⟩ : ∃ members, f.toJson = .object members := by
      cases f <;> exact ⟨_, rfl⟩
    have htext := ofText_interrupting hf
    rw [hobject] at htext hg
    obtain rfl := Except.ok.inj (htext.symm.trans (Wire.ofText_of_torn hlost hx hg))
    rcases hf with rfl | ⟨path, metadata, rfl⟩ <;> simp at hkind
  | malformed requests messages bad e hcall hbad hstream =>
    rw [hstream] at hread
    obtain ⟨g, k, tail, hg, -⟩ :=
      parse_of_front hread (hcall.append bad) (halfClose_not_mem requests)
    cases hbad.symm.trans hg

/-- Where a call ends with success, or has a message and is not one of `Chat`, it was read to its
end, and its bytes are not broken off. -/
theorem complete_of_yields {c : Account} {b : Block} {stream : List UInt8} (hin : c.In stream)
    (hyields : c.Yields b)
    (h : b.status.code = .ok ∨ b.bodies ≠ [] ∧ Method.ofPath? c.path ≠ some .chat) :
    c.Complete ∧ ¬ BrokenOff (stream.drop c.place) := by
  obtain ⟨sent, o, hends, rfl⟩ := hyields
  have hcomplete : c.Complete := by
    rcases h with hok | ⟨hbodies, hchat⟩
    · cases hr : o.result with
      | ok x => exact hends.complete x hr
      | error s =>
        obtain ⟨hcode, -⟩ := hends.proper.entries_of_error s hr
        rw [(blockOf_status sent o).2.1 s hr] at hok
        exact absurd hok hcode
    · exact (hends.speaks_of_bodies hbodies).resolve_right hchat
  exact ⟨hcomplete, hcomplete.not_brokenOff hin⟩

/-- A call with the status OK, or with a message if it is not one of `Chat`, was read up to its
`half_close`. So it is not broken off, at whatever byte. -/
theorem broken_off_never_complete (capacity : Nat) (reads : Bool) (registry : Registry)
    (accounts : List Account) (h : History) (a : State × Registry)
    (hrun : Recorded (State.init capacity reads, registry) accounts h a) :
    (∀ c ∈ accounts, c.In h.received) ∧
    ∃ closed waiting, ∃ blocks : List Block, ∃ bodies : List Json,
      accounts = closed ++ waiting ∧
      a.1.outbox.written = blocks.flatMap Block.frames ++ bodies.map .message ∧
      List.Forall₂ (fun c b =>
        b.status.code = .ok ∨ b.bodies ≠ [] ∧ Method.ofPath? c.path ≠ some .chat →
          c.Complete ∧ ¬ BrokenOff (h.received.drop c.place)) closed blocks ∧
      (bodies ≠ [] → ∃ c, waiting.head? = some c ∧
        (Method.ofPath? c.path = some .chat ∨
          c.Complete ∧ ¬ BrokenOff (h.received.drop c.place))) := by
  have hin : ∀ c ∈ accounts, c.In h.received := (tracked_run hrun).all
  obtain ⟨closed, waiting, blocks, bodies, rfl, hyields, hwritten, hspeaks⟩ :=
    told_of_accounted (accounted_run hrun)
  refine ⟨hin, closed, waiting, blocks, bodies, rfl, hwritten, ?_, fun hne => ?_⟩
  · refine List.forall₂_iff_zip.mpr ⟨hyields.length_eq, fun {c b} hpair => ?_⟩
    have hc : c ∈ closed := (List.of_mem_zip hpair).1
    exact complete_of_yields (hin c (List.mem_append_left _ hc))
      ((List.forall₂_iff_zip.mp hyields).2 hpair)
  · obtain ⟨c, hhead, hspeaks⟩ := hspeaks hne
    have hc : c ∈ waiting := List.mem_of_mem_head? hhead
    refine ⟨c, hhead, hspeaks.symm.imp id fun hcomplete => ⟨hcomplete, ?_⟩⟩
    exact hcomplete.not_brokenOff (hin c (List.mem_append_right _ hc))

/-- A call of `Collect`, and one that is cut off inside its `half_close`, where `cancel` comes. -/
theorem broken_off_never_complete_collect :
    ∃ accounts h a, Recorded (State.init 1 true, .empty) accounts h a ∧
      a.1.outbox.written.map (fun f => match f with
        | .message _ => none
        | .trailers s _ => some s.code) = [none, some .ok, some .cancelled] ∧
      (∀ c ∈ accounts, c.In h.received) ∧
      ∃ closed waiting, ∃ blocks : List Block, ∃ bodies : List Json,
        accounts = closed ++ waiting ∧
        a.1.outbox.written = blocks.flatMap Block.frames ++ bodies.map .message ∧
        closed.length = blocks.length := by
  let frames : List ClientFrame :=
    [.call "Collect" .empty, .message (.object [("content", .string "hi")])]
  let sent : List UInt8 := frames.flatMap fun f => Wire.encode f.toJson
  let ending : List UInt8 := Wire.encode ClientFrame.halfClose.toJson
  let bytes : List UInt8 :=
    sent ++ ending ++ sent ++ ending.take 20 ++ Wire.encode ClientFrame.cancel.toJson
  let start : State × Registry := (State.init 1 true, .empty)
  have hsent : Run start { History.empty with received := [] ++ bytes }
      (start.1.receive bytes, .empty) :=
    .receive _ _ _ bytes .start rfl
  obtain ⟨h, hrun⟩ := exists_run_of_schedule start ⟨0, epoch⟩ 40 _ _ hsent
  obtain ⟨accounts, hrecorded⟩ := exists_recorded hrun
  obtain ⟨hin, closed, waiting, blocks, bodies, haccounts, hwritten, hall, -⟩ :=
    broken_off_never_complete 1 true .empty accounts h _ hrecorded
  exact ⟨accounts, h, _, hrecorded, by decide +kernel, hin, closed, waiting, blocks, bodies,
    haccounts, hwritten, hall.length_eq⟩

end EchoServer.Connection
