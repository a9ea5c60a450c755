import EchoServer.Proofs.Connection.Inbound

namespace EchoServer.Connection

open Wire (Front Inbox)

/-- The message that echoes a content. -/
def echoed (content : String) : ServerFrame := .message (bodyOf (.ofContent content))

/-- The last frame of a call whose stream ends so. -/
def closing (metadata : Metadata) : Except Status Unit → ServerFrame
  | .ok () => .trailers .ok (metadata.echoTrailers .empty)
  | .error s => .trailers s .empty

/-- The handler waits for the next request, and these frames are due for those that it has got. -/
inductive Account.Listens (c : Account) : List ServerFrame → Prop
  | collect (hm : Method.ofPath? c.path = some .collect) : Listens c []
  | chat (hm : Method.ofPath? c.path = some .chat) :
      Listens c ((inflow c.reads).1.map echoed)

/-- The calls that were taken up and are not answered, with the frames that are written for them. -/
inductive Waits (s : State) : List Account → List ServerFrame → Prop
  /-- They take single requests. -/
  | single (rest) (hone : ∀ c ∈ rest, ¬ c.Gathers) : Waits s rest []
  /-- There is one, and it waits for the next request. -/
  | stream (c frames) (hlistens : c.Listens frames) (hgoes : (inflow c.reads).2 = none)
      (hq : s.queued = none) (hdry : Dry s.inbox) (hattends : s.Attends) : Waits s [c] frames

/-- All calls that were taken up are answered, but the last ones, which wait. -/
def Standing (taken : List Account) (s : State) : Prop :=
  ∃ front rest base frames, taken = front ++ rest ∧ Closed front base ∧
    s.outbox.written = base ++ frames ∧ Waits s rest frames

section
variable {accounts taken : List Account} {s : State}

theorem standing_of_cleared (h : Cleared accounts s) :
    ∃ taken, Booked accounts taken s.queued ∧ Standing taken s := by
  obtain ⟨taken, front, rest, hbooked, hsplit, hclosed, hcut⟩ := h
  refine ⟨taken, hbooked, front, rest, _, [], hsplit, hclosed, (List.append_nil _).symm, ?_⟩
  apply Waits.single
  intro c hc
  obtain ⟨m, got, body, hm, hone, -⟩ := hcut c hc
  exact Account.not_gathers hm hone

theorem standing_of_serves {call : Call} {c : Account} (h : Serves taken s call c)
    (hone : readsOne call.method = true) : Standing taken s := by
  obtain ⟨hof, -, front, rfl, hclosed⟩ := h
  refine ⟨front, [c], _, [], rfl, hclosed, (List.append_nil _).symm, ?_⟩
  apply Waits.single
  intro x hx
  rw [List.mem_singleton.mp hx]
  exact Account.not_gathers hof.method hone

/-- A stream whose requests are all handed over and written, and that waits for the next one. -/
theorem standing_of_listen {call : Call} {x : Stream} {watch : Watch}
    (hp : s.phase = .work call (.stream x) watch) (hx : x.handler = .listen)
    (hf : x.forwarding = true) (hempty : x.queue = []) (hcur : s.outbox.current = none)
    (hdry : Dry s.inbox) (hstage : Stage taken s) : Standing taken s := by
  obtain ⟨front, c, base, begun, htaken, hclosed, hstream⟩ := (stage_stream_iff hp).mp hstage
  obtain ⟨hchat, -, hq⟩ := hstream.listens (by rw [hx]; trivial)
  obtain ⟨handed, hbegun, hhanded⟩ := hstream.going hf
  rw [hx] at hhanded
  cases hhanded with
  | listen bodies handed hm hreads hall =>
    obtain ⟨hcontents, hresult⟩ := intake_of_chatResponses hall
    have hintake := intake_of_asked bodies [] (Nat.zero_le 1)
    rw [List.append_nil, ← hreads] at hintake
    have hhanded : handed = (inflow c.reads).1.map .ofContent := by
      rw [hcontents, Account.requests, hintake]
    have hsent : s.sent = base ++ (inflow c.reads).1.map echoed := by
      rw [hempty, List.map_nil, List.append_nil] at hbegun
      rw [hstream.sent, hbegun, hhanded, List.map_map, List.map_map]
      rfl
    have hwritten : s.outbox.written = base ++ (inflow c.reads).1.map echoed := by
      simpa [State.sent, hcur] using hsent
    refine ⟨front, [c], base, _, htaken, hclosed, hwritten, ?_⟩
    have hpath : Method.ofPath? c.path = some .chat := hchat ▸ hstream.isOf.method
    have hattends : s.Attends := Or.inr (by simp [hp, hx, Phase.Attends, Handler.Listens])
    exact .stream c _ (.chat hpath) (inflow_of_reads hreads hresult) hq hdry hattends

theorem standing_of_reads (hreads : s.reads? ≠ none) (hdry : Dry s.inbox)
    (haccounted : Accounted accounts s) (hbetween : s.BetweenCalls → Cleared accounts s)
    (hflushed : ∀ call x watch, s.phase = .work call (.stream x) watch →
      x.forwarding = true ∧ x.queue = [] ∧ s.outbox.current = none) :
    ∃ taken, Booked accounts taken s.queued ∧ Standing taken s := by
  obtain ⟨taken, hbooked, hstage⟩ := haccounted
  unfold State.reads? at hreads
  split at hreads
  · rename_i hp
    exact standing_of_cleared (hbetween (Or.inl hp))
  · rename_i call body hp
    obtain ⟨-, hone, c, hserves, -⟩ := (stage_gather_iff hp).mp hstage
    exact ⟨taken, hbooked, standing_of_serves hserves hone⟩
  · rename_i call contents hp
    obtain ⟨hq, hm, c, bodies, ⟨hof, -, front, htaken, hclosed⟩, hc, hfold⟩ :=
      (stage_collect_iff hp).mp hstage
    have hpath : Method.ofPath? c.path = some .collect := hm ▸ hof.method
    have hattends : s.Attends := Or.inr (by simp [hp, Phase.Attends])
    refine ⟨taken, hbooked, front, [c], _, [], htaken, hclosed, (List.append_nil _).symm, ?_⟩
    exact .stream c _ (.collect hpath) (inflow_of_reads hc (intake_of_foldlM hfold)) hq hdry
      hattends
  · rename_i call x watch hp
    split at hreads
    · rename_i hx
      obtain ⟨hf, hempty, hcur⟩ := hflushed call x watch hp
      exact ⟨taken, hbooked, standing_of_listen hp hx hf hempty hcur hdry hstage⟩
    · exact absurd rfl hreads
  · exact absurd rfl hreads

end

theorem standing_of_quiet {capacity : Nat} {registry : Registry} {accounts : List Account}
    {h : History} {a : State × Registry} {clock : Clock}
    (hrun : Recorded (State.init capacity true, registry) accounts h a)
    (hgone : a.1.outbox.gone = false) (hquiet : Quiet clock a) :
    ∃ taken, Booked accounts taken a.1.queued ∧ Standing taken a.1 := by
  obtain ⟨hroom, hcap⟩ := room_of_run capacity registry h a hrun.run
  have haccounted := accounted_run hrun
  rcases atRest_or_holdsBack hquiet hgone hroom hcap with
    (hfinished | ⟨hreads, hdry, hflushed⟩) | ⟨call, deadline, request, watch, hp, -⟩
  · unfold State.isFinished at hfinished
    split at hfinished
    · rename_i failure hp
      exact standing_of_cleared (cleared_run hrun hgone (Or.inr ⟨failure, hp⟩))
    · cases hfinished
  · apply standing_of_reads hreads hdry haccounted (cleared_run hrun hgone)
    intro call x watch hp
    have hf := ((orderly_stream_iff hp).mp (orderly_run _ _ _ _ _ hrun.run hgone)).2.1
    exact ⟨hf, hflushed call x watch hp hf⟩
  · obtain ⟨taken, hbooked, hstage⟩ := haccounted
    obtain ⟨-, hone, c, body, g, n, hserves, -⟩ := (stage_delay_iff hp).mp hstage
    exact ⟨taken, hbooked, standing_of_serves hserves hone⟩

/-- All accounts but that of a call that was put aside are those of calls that were taken up. -/
theorem taken_of_booked {front back taken : List Account} {c : Account}
    {queued : Option (String × Metadata)} (h : Booked (front ++ c :: back) taken queued)
    (htaken : back ≠ [] ∨ queued = none) :
    ∃ behind, taken = front ++ c :: behind ∧ (queued = none → behind = back) ∧
      (back = [] → behind = []) := by
  cases queued with
  | none => exact ⟨back, h.symm, fun _ => rfl, id⟩
  | some call =>
    have hne : back ≠ [] := htaken.resolve_right (by simp)
    obtain ⟨place, hsplit⟩ := h
    refine ⟨back.dropLast, ?_, by simp, fun hnil => absurd hnil hne⟩
    have hdrop := congrArg List.dropLast hsplit
    rw [List.dropLast_concat, List.dropLast_append_of_ne_nil (List.cons_ne_nil c back),
      List.dropLast_cons_of_ne_nil hne] at hdrop
    exact hdrop.symm

/-- An item stands in the front part of a list, or in the rest of it. -/
theorem front_or_rest {α : Type} {front behind first rest : List α} {c : α}
    (h : front ++ c :: behind = first ++ rest) :
    (∃ between, first = front ++ c :: between ∧ behind = between ++ rest) ∨
      ∃ before, front = first ++ before ∧ rest = before ++ c :: behind := by
  rcases List.append_eq_append_iff.mp h with ⟨between, hfirst, hrest⟩ | ⟨before, hfront, hrest⟩
  · cases between with
    | nil => exact Or.inr ⟨[], by simpa using hfirst.symm, hrest.symm⟩
    | cons x between =>
      obtain ⟨rfl, hbehind⟩ := List.cons.inj hrest
      exact Or.inl ⟨between, hfirst, hbehind⟩
  · exact Or.inr ⟨before, hfront, hrest⟩

/-- The block of a call stands behind those of the calls before it. -/
theorem closed_split {front between : List Account} {c : Account} {base : List ServerFrame}
    (h : Closed (front ++ c :: between) base) :
    ∃ blocks block more, List.Forall₂ Account.Yields front blocks ∧ c.Yields block ∧
      base = blocks.flatMap Block.frames ++ block.frames ++ more ∧ (between = [] → more = []) := by
  obtain ⟨blocks, hblocks, rfl⟩ := h
  have hfront := List.forall₂_take front.length hblocks
  have hrest := List.forall₂_drop front.length hblocks
  rw [List.take_left] at hfront
  rw [List.drop_left] at hrest
  obtain ⟨block, others, hblock, hothers, hdrop⟩ := List.forall₂_cons_left_iff.mp hrest
  refine ⟨_, block, others.flatMap Block.frames, hfront, hblock, ?_, ?_⟩
  · calc blocks.flatMap Block.frames
        = (blocks.take front.length ++ block :: others).flatMap Block.frames := by
          rw [← hdrop, List.take_append_drop]
      _ = _ := by simp
  · rintro rfl
    rw [List.forall₂_nil_left_iff.mp hothers]
    rfl

/-- Where nobody can move, a call with a stream of requests has its whole block written, or waits
for the next request with all that has come in read for it. -/
theorem told_of_quiet {capacity : Nat} {registry : Registry} {accounts front back : List Account}
    {c : Account} {h : History} {a : State × Registry} {clock : Clock}
    (hrun : Recorded (State.init capacity true, registry) accounts h a)
    (hgone : a.1.outbox.gone = false) (hquiet : Quiet clock a)
    (hsplit : accounts = front ++ c :: back) (htaken : back ≠ [] ∨ a.1.queued = none)
    (hgathers : c.Gathers) :
    ∃ blocks frames later, List.Forall₂ Account.Yields front blocks ∧
      a.1.outbox.written = blocks.flatMap Block.frames ++ frames ++ later ∧
      (back = [] → later = []) ∧
      ((∃ block, c.Yields block ∧ frames = block.frames) ∨
        back = [] ∧ c.Listens frames ∧ (inflow c.reads).2 = none ∧ Dry a.1.inbox ∧
          Front ClientFrame.decoder (h.received.drop c.place) c.frames a.1.inbox.buffer) := by
  obtain ⟨taken, hbooked, first, rest, base, frames, hfirst, hclosed, hwritten, hwaits⟩ :=
    standing_of_quiet hrun hgone hquiet
  have htracked := tracked_run hrun
  rw [hsplit] at hbooked htracked
  obtain ⟨behind, hbehind, hsame, hlast⟩ := taken_of_booked hbooked htaken
  rcases front_or_rest (hbehind.symm.trans hfirst) with
    ⟨between, rfl, hbetween⟩ | ⟨before, rfl, hrest⟩
  · -- the call is answered, and whatever is written behind its block is for calls behind it
    obtain ⟨blocks, block, more, hblocks, hblock, rfl, hmore⟩ := closed_split hclosed
    refine ⟨blocks, block.frames, more ++ frames, hblocks, ?_, ?_, Or.inl ⟨block, hblock, rfl⟩⟩
    · rw [hwritten, List.append_assoc]
    · intro hback
      obtain ⟨rfl, rfl⟩ := List.append_eq_nil_iff.mp (hbetween.symm.trans (hlast hback))
      rw [hmore rfl]
      cases hwaits with
      | single _ hone => rfl
  · cases hwaits with
    | single rest hone => exact absurd hgathers (hone c (by simp [hrest]))
    | stream x frames hlistens hgoes hq hdry hattends =>
      -- the only call that is left is this one
      obtain ⟨rfl, hcons⟩ : before = [] ∧ x :: [] = c :: behind := by
        cases before with
        | nil => exact ⟨rfl, hrest⟩
        | cons y ys => simp at hrest
      obtain ⟨rfl, hnil⟩ := List.cons.inj hcons
      obtain rfl : [] = back := hnil.trans (hsame hq)
      obtain ⟨front', c', heq, hread⟩ := htracked.last hattends
      obtain ⟨-, hx⟩ := List.append_inj' heq rfl
      obtain rfl := List.head_eq_of_cons_eq hx
      have hbytes : a.1.inbox.bytes = a.1.inbox.buffer := by
        rw [Inbox.bytes, hdry.2.1, List.append_nil]
      rw [hbytes] at hread
      obtain ⟨blocks, hblocks, rfl⟩ := hclosed
      refine ⟨blocks, frames, [], by simpa using hblocks, ?_, fun _ => rfl, Or.inr ?_⟩
      · rw [hwritten, List.append_nil]
      · exact ⟨rfl, hlistens, hgoes, hdry, hread⟩

/-- What there is to be said of a call with a stream of requests, the calls before and behind it
being known, where these frames are written for it. -/
structure Account.Reported (c : Account) (front back : List Account) (h : History) (s : State)
    (frames : List ServerFrame) : Prop where
  /-- What was read for the call stands in the stream, behind its call frame. -/
  isIn : c.In h.received
  /-- Nothing was read behind the first event that ends the stream of requests. -/
  heeds : ∀ got ∈ c.reads.dropLast, ∃ r, turn got = .goes r
  /-- Where the connection ended or failed, it did so behind the last of the frames. -/
  breaks : c.Breaks h.received s.inbox.closed
  /-- The frames stand behind the blocks of the calls before, and what follows is for calls
  behind. -/
  written : ∃ blocks later, List.Forall₂ Account.Yields front blocks ∧
    s.outbox.written = blocks.flatMap Block.frames ++ frames ++ later ∧ (back = [] → later = [])
  /-- As long as the stream goes on, all that has come in was read for it. -/
  waits : (inflow c.reads).2 = none → back = [] ∧ Dry s.inbox ∧ c.reads = c.frames.map .frame ∧
    Front ClientFrame.decoder (h.received.drop c.place) c.frames s.inbox.buffer

/-- What is written for a call, if it is this while the call waits and when it has ended. -/
theorem reported_of_quiet {capacity : Nat} {registry : Registry}
    {accounts front back : List Account} {c : Account} {h : History} {a : State × Registry}
    {clock : Clock} {frames : List ServerFrame}
    (hrun : Recorded (State.init capacity true, registry) accounts h a)
    (hgone : a.1.outbox.gone = false) (hquiet : Quiet clock a)
    (hsplit : accounts = front ++ c :: back) (htaken : back ≠ [] ∨ a.1.queued = none)
    (hgathers : c.Gathers)
    (hends : ∀ sent o, c.Ends sent o → (blockOf sent o).frames = frames)
    (hlistens : ∀ others, c.Listens others → (inflow c.reads).2 = none → others = frames) :
    c.Reported front back h a.1 frames := by
  have hmem : c ∈ accounts := by simp [hsplit]
  obtain ⟨hheeds, hbreaks⟩ := sound_run hrun hgone c hmem
  obtain ⟨blocks, others, later, hblocks, hwritten, hlater, hothers⟩ :=
    told_of_quiet hrun hgone hquiet hsplit htaken hgathers
  refine ⟨(tracked_run hrun).all c hmem, hheeds hgathers, hbreaks, ?_, ?_⟩
  · refine ⟨blocks, later, hblocks, ?_, hlater⟩
    rcases hothers with ⟨block, ⟨sent, o, h, rfl⟩, rfl⟩ | ⟨-, h, hgoes, -⟩
    · rw [hwritten, hends sent o h]
    · rw [hwritten, hlistens others h hgoes]
  · intro hnone
    rcases hothers with ⟨block, ⟨sent, o, h, rfl⟩, rfl⟩ | ⟨hback, -, -, hdry, hfront⟩
    · obtain ⟨result, hstop, -⟩ := h.stopped hgathers
      cases hnone.symm.trans hstop
    · exact ⟨hback, hdry, reads_eq_frames hnone, hfront⟩

end EchoServer.Connection
