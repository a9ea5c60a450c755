import EchoServer.Proofs.Connection.Groups

namespace EchoServer.Connection

open Wire (Inbox)

/-- While the peer stays, a run is on its way through the frames that were sent and are still to
be sent. -/
theorem serving_run (capacity : Nat) (reads : Bool) (registry : Registry)
    (sent : List (Json × ClientFrame))
    (hspelled : ∀ p ∈ sent, Wire.Spelled ClientFrame.decoder p.1 p.2)
    (hgroups : InGroups false (sent.map (·.2))) (h : History) (a : State × Registry)
    (hrun : Run (State.init capacity reads, registry) h a) (future : List UInt8)
    (hbytes : h.received ++ future = sent.flatMap fun p => Wire.encode p.1)
    (hopen : a.1.inbox.closed = false) :
    ∃ ahead, Serving (sent.map (·.2)) future h.readings a.1 ahead := by
  induction hrun generalizing future with
  | start =>
    refine ⟨sent, rfl, rfl, ?_, fun _ => rfl, hspelled, hbytes, ⟨false, hgroups⟩, fun more => ?_⟩
    · intro call x watch hp
      cases hp
    · exact (map_after_nil _).symm
  | step h s r t r' clock hrun hstep ih =>
    have hmove := hstep.move
    obtain ⟨ahead, hs⟩ := ih future hbytes ((peer_of_move hmove).1.symm.trans hopen)
    exact serving_step _ future h.readings ahead clock s t r r' hmove hs
  | receive h s r bytes hrun hs ih =>
    obtain ⟨ahead, hs⟩ := ih (bytes ++ future) (by rw [← hbytes, List.append_assoc]) hs
    exact ⟨ahead, { hs with bytes := by simpa [State.receive, Inbox.receive] using hs.bytes }⟩
  | close h s r hrun ih => cases hopen
  | drop h s r hrun ih => cases hopen
  | share h s r r' hrun ih => exact ih future hbytes hopen

/-- A connection at rest, with a peer that reads and has sent everything, has said what serving the
frames one after the other says. -/
theorem serve_of_settled (capacity : Nat) (registry : Registry)
    (sent : List (Json × ClientFrame))
    (hspelled : ∀ p ∈ sent, Wire.Spelled ClientFrame.decoder p.1 p.2)
    (hgroups : InGroups false (sent.map (·.2))) (h : History) (a : State × Registry)
    (hrun : Run (State.init capacity true, registry) h a)
    (hbytes : h.received = sent.flatMap fun p => Wire.encode p.1)
    (hopen : a.1.inbox.closed = false) (hsettled : Settled a.1) (more : List Reading) :
    serve .idle (sent.map (·.2)) (h.readings ++ more) =
      some ⟨a.1.outbox.written, .idle, more⟩ := by
  obtain ⟨ahead, hs⟩ := serving_run capacity true registry sent hspelled hgroups h a hrun []
    (by rw [List.append_nil, hbytes]) hopen
  obtain ⟨hroom, hcap⟩ := room_of_run capacity registry h a hrun
  have haligned := hs.aligned
  rcases atRest_of_settled a.1 hsettled hs.gone hroom hcap with hfinished | ⟨hreads, hdry, -⟩
  · unfold State.isFinished at hfinished
    split at hfinished
    · rename_i failure hp
      rw [hp] at haligned
      exact absurd haligned id
    · cases hfinished
  -- nothing is ahead any more, and only an idle phase needs no frame then
  · obtain rfl : ahead = [] := ahead_of_dry _ ahead hdry hs.spelled (by simpa using hs.bytes)
    have hserved := hs.serves more
    unfold State.reads? at hreads
    split at hreads
    · rename_i hp
      have hcur : a.1.outbox.current = none := hs.resting (by simp [hp, Phase.Writes])
      have hq : a.1.queued = none := by
        cases hq : a.1.queued with
        | none => rfl
        | some call => simp [hq] at hreads
      rw [hserved, hp, hq]
      simp [queuedFrames, serve, Phase.flush, Served.after, State.sent, hcur]
    · rename_i call body hp
      rw [hp] at haligned
      cases haligned.2
    · rename_i call contents hp
      rw [hp] at haligned
      cases haligned.2
    · rename_i call x watch hp
      split at hreads
      · rename_i hx
        have hlistens : (Work.stream x).Listens := by simp [Work.Listens, hx]
        rw [hp] at haligned
        cases watch with
        | on => exact absurd hlistens haligned.1
        | cancelled => exact absurd haligned id
        | off => cases (haligned.1 hlistens).2
      · exact absurd rfl hreads
    · exact absurd rfl hreads

/-- The next look at the clock and the registry is the first of those that serving still asks
for. -/
theorem readings_of_step (all : List ClientFrame) (gs : List Reading) (s : State)
    (ahead : List (Json × ClientFrame)) (h : Serving all [] gs s ahead) (g : Reading)
    (rest : List Reading) (v : Served) (hserve : serve .idle all (gs ++ rest) = some v)
    (hhead : ∀ x ∈ rest.head?, x = g) (elapsed : Nat) (t : State) :
    ∃ rest', lookedAt ⟨elapsed, g.now⟩ g.registry s t ++ rest' = rest := by
  unfold lookedAt
  split
  · exact ⟨rest, rfl⟩
  · rename_i call body watch hp hno
    cases rest with
    | nil =>
      rw [h.serves, hp] at hserve
      cases hfs : queuedFrames s.queued ++ ahead.map (·.2) <;>
        simp [hfs, serve, Phase.flush] at hserve
    | cons x rest =>
      obtain rfl := hhead x (by simp)
      exact ⟨rest, rfl⟩
  · exact ⟨rest, rfl⟩

/-- A connection that was sent everything comes to rest after the looks at the clock and the
registry that serving asks for. -/
theorem exists_settled (capacity : Nat) (hplaces : CanQueue (max capacity 1))
    (registry : Registry) (sent : List (Json × ClientFrame))
    (hspelled : ∀ p ∈ sent, Wire.Spelled ClientFrame.decoder p.1 p.2)
    (hgroups : InGroups false (sent.map (·.2))) (v : Served) (s : State) (r : Registry)
    (h : History) (rest : List Reading) (hrun : Run (State.init capacity true, registry) h (s, r))
    (hbytes : h.received = sent.flatMap fun p => Wire.encode p.1)
    (hopen : s.inbox.closed = false)
    (hserve : serve .idle (sent.map (·.2)) (h.readings ++ rest) = some v) :
    ∃ h' a more, Run (State.init capacity true, registry) h' a ∧ h'.received = h.received ∧
      a.1.inbox.closed = false ∧ Settled a.1 ∧ h'.readings ++ more = h.readings ++ rest := by
  induction s using next_wellFounded.induction generalizing r h rest with
  | h s ih =>
    by_cases hsettled : Settled s
    · exact ⟨h, (s, r), rest, hrun, rfl, hopen, hsettled, rfl⟩
    -- somebody can move, and is shown the reading that serving asks for next
    · have hwhole : s.isBroken = false := whole_of_run hrun hplaces
      obtain ⟨t, ht⟩ : ∃ t, Next s t :=
        Classical.not_forall_not.mp fun hno => hsettled ⟨hwhole, hno⟩
      let g : Reading := rest.head?.getD ⟨epoch, .empty⟩
      have hhead : ∀ x ∈ rest.head?, x = g := fun x hx => by simp [g, Option.mem_def.mp hx]
      obtain ⟨elapsed, ⟨u, r'⟩, hstep⟩ := mobile_of_next s t ht g.now g.registry
      obtain ⟨ahead, hs⟩ := serving_run capacity true registry sent hspelled hgroups h (s, r) hrun
        [] (by rw [List.append_nil, hbytes]) hopen
      obtain ⟨rest', hrest⟩ := readings_of_step _ _ s ahead hs g rest v hserve hhead elapsed u
      have hreadings : (h.step ⟨elapsed, g.now⟩ g.registry s u).readings ++ rest' =
          h.readings ++ rest := by
        rw [← hrest, ← List.append_assoc]
        rfl
      have hstay : u.inbox.closed = s.inbox.closed :=
        (peer_of_move hstep.move).1
      have hrun' := Run.step h s g.registry u r' _ (.share h s r g.registry hrun) hstep
      obtain ⟨h', a, more, hrun', hreceived, hopen', hsettled', hmore⟩ := ih u
        ⟨_, _, _, hstep⟩ r' _ rest' hrun' hbytes (hstay.trans hopen) (by rw [hreadings, hserve])
      exact ⟨h', a, more, hrun', hreceived, hopen', hsettled', by rw [hmore, hreadings]⟩

/-- What a fresh connection comes to that is sent a group and nothing else: it runs until it is at
rest, whatever it looks at, unless its queues cannot be made. -/
structure Alone (capacity : Nat) (g : CallGroup) (readings : List Reading)
    (frames : List ServerFrame) : Prop where
  run : CanQueue (max capacity 1) → ∃ registry h a,
    Run (State.init capacity true, registry) h a ∧ h.received = g.bytes ∧
    h.readings = readings ∧ a.1.inbox.closed = false ∧ Settled a.1
  written : ∀ registry h a, Run (State.init capacity true, registry) h a →
    h.received = g.bytes → h.readings = readings → a.1.inbox.closed = false → Settled a.1 →
    a.1.outbox.written = frames

/-- Serving a group alone says what a fresh connection says to it. -/
theorem alone_of_serve (capacity : Nat) (g : CallGroup) (hfits : g.Fits) (readings : List Reading)
    (frames : List ServerFrame)
    (hserve : serve .idle g.received readings = some ⟨frames, .idle, []⟩) :
    Alone capacity g readings frames := by
  have hspelled := sent_spelled [g] (by simpa using hfits)
  have hreceived := sent_received [g]
  have hgroups := inGroups_received [g]
  have hbytes := sent_bytes [g]
  simp only [List.flatMap_cons, List.flatMap_nil, List.append_nil]
    at hspelled hreceived hgroups hbytes
  rw [← hreceived] at hgroups hserve
  have hserved (h : History) (a : State × Registry) (registry : Registry)
      (hrun : Run (State.init capacity true, registry) h a) (hb : h.received = g.bytes)
      (hopen : a.1.inbox.closed = false) (hsettled : Settled a.1) (more : List Reading)
      (hmore : h.readings ++ more = readings) : a.1.outbox.written = frames ∧ more = [] := by
    have hrest := serve_of_settled capacity registry _ hspelled hgroups h a hrun
      (hb.trans hbytes.symm) hopen hsettled more
    rw [hmore, hserve] at hrest
    obtain ⟨hframes, hnone⟩ := by simpa using hrest
    exact ⟨hframes.symm, hnone⟩
  constructor
  · intro hplaces
    have hstart : Run (State.init capacity true, .empty) ⟨g.bytes, [], [], none⟩
        ((State.init capacity true).receive g.bytes, .empty) := .receive _ _ _ g.bytes .start rfl
    obtain ⟨h, a, more, hrun, hb, hopen, hsettled, hmore⟩ := exists_settled capacity hplaces .empty
      _ hspelled hgroups _ _ _ _ readings hstart hbytes.symm rfl hserve
    obtain ⟨-, rfl⟩ := hserved h a .empty hrun hb hopen hsettled more hmore
    exact ⟨.empty, h, a, hrun, hb, by simpa using hmore, hopen, hsettled⟩
  · intro registry h a hrun hb hreadings hopen hsettled
    exact (hserved h a registry hrun hb hopen hsettled [] (by simpa using hreadings)).1

/-- Calls that are sent one behind the other are answered each by its own block, in their order,
and with what a fresh connection answers to that call alone when it looks at the same things. -/
theorem pipelined_calls_answered_alone (capacity : Nat) (registry : Registry)
    (groups : List CallGroup) (hfits : ∀ g ∈ groups, g.Fits) (h : History) (a : State × Registry)
    (hrun : Run (State.init capacity true, registry) h a)
    (hbytes : h.received = groups.flatMap CallGroup.bytes) (hopen : a.1.inbox.closed = false) :
    Acc (fun t s => Next s t) a.1 ∧
      (Settled a.1 → ∃ replies : List Reply, replies.length = groups.length ∧
        h.readings = replies.flatMap (·.readings) ∧
        a.1.outbox.written = replies.flatMap (·.block.frames) ∧
        ∀ x ∈ groups.zip replies, Alone capacity x.1 x.2.readings x.2.block.frames) := by
  refine ⟨next_wellFounded.apply _, fun hsettled => ?_⟩
  have hreceived := sent_received groups
  have hserve := serve_of_settled capacity registry _ (sent_spelled groups hfits)
    (hreceived ▸ inGroups_received groups) h a hrun (hbytes.trans (sent_bytes groups).symm) hopen
    hsettled []
  rw [hreceived, List.append_nil] at hserve
  obtain ⟨replies, hlen, hreadings, hframes, halone⟩ := exists_replies groups _ _ hserve
  refine ⟨replies, hlen, by simpa using hreadings, hframes, fun x hx => ?_⟩
  exact alone_of_serve capacity x.1 (hfits x.1 (List.of_mem_zip hx).1) _ _ (halone x hx)

/-- A call of an unknown method with a message, and a call of `Echo` right behind it. -/
theorem pipelined_calls_answered_alone_echo :
    ∃ groups : List CallGroup, ∃ h a, ∃ replies : List Reply, groups.length = 2 ∧
      Run (State.init 1 true, .empty) h a ∧ Settled a.1 ∧
      h.received = groups.flatMap CallGroup.bytes ∧ replies.length = groups.length ∧
      h.readings = replies.flatMap (·.readings) ∧
      a.1.outbox.written = replies.flatMap (·.block.frames) ∧
      ∀ x ∈ groups.zip replies, Alone 1 x.1 x.2.readings x.2.block.frames := by
  let groups : List CallGroup := [⟨"X", .empty, [.null], true⟩,
    ⟨"Echo", .empty, [.object [("content", .string "hi")]], false⟩]
  have hfits : ∀ g ∈ groups, g.Fits := by
    intro g hg
    simp only [groups, List.mem_cons, List.not_mem_nil, or_false] at hg
    rcases hg with rfl | rfl <;> intro f hf <;>
      simp [CallGroup.frames, CallGroup.ending] at hf <;>
      rcases hf with rfl | rfl | rfl <;> exact ⟨by decide, by decide +kernel⟩
  have hstart : Run (State.init 1 true, .empty) ⟨groups.flatMap CallGroup.bytes, [], [], none⟩
      ((State.init 1 true).receive (groups.flatMap CallGroup.bytes), .empty) :=
    .receive _ _ _ _ .start rfl
  have hreceived := sent_received groups
  have hserve : (serve .idle (groups.flatMap CallGroup.received) [⟨epoch, .empty⟩]).isSome =
      true := by decide +kernel
  obtain ⟨v, hv⟩ := Option.isSome_iff_exists.mp hserve
  obtain ⟨h, a, more, hrun, hb, hopen, hsettled, -⟩ := exists_settled 1 (by decide) .empty _
    (sent_spelled groups hfits) (hreceived ▸ inGroups_received groups) v _ _ _ [⟨epoch, .empty⟩]
    hstart (sent_bytes groups).symm rfl (by rw [hreceived]; exact hv)
  obtain ⟨replies, hlen, hreadings, hwritten, halone⟩ :=
    (pipelined_calls_answered_alone 1 .empty groups hfits h a hrun hb hopen).2 hsettled
  exact ⟨groups, h, a, replies, rfl, hrun, hsettled, hb, hlen, hreadings, hwritten, halone⟩

end EchoServer.Connection
