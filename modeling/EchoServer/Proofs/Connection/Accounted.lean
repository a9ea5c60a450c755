import EchoServer.Proofs.Connection.Stages

namespace EchoServer.Connection

open Wire (Inbox Received)

/-- The calls that were taken up are all but the one that was put aside. -/
def Booked (accounts taken : List Account) : Option (String × Metadata) → Prop
  | none => accounts = taken
  | some (path, metadata) => ∃ place, accounts = taken ++ [.opening path metadata place]

/-- The accounts are those of the connection, and say what it writes. -/
def Accounted (accounts : List Account) (s : State) : Prop :=
  ∃ taken, Booked accounts taken s.queued ∧ Stage taken s

theorem booked_none {accounts taken : List Account} {queued : Option (String × Metadata)}
    (h : Booked accounts taken queued) (hq : queued = none) : accounts = taken := by
  rw [hq] at h
  exact h

theorem accounted_of_stage {accounts : List Account} {s : State} (hq : s.queued = none)
    (h : Stage accounts s) : Accounted accounts s :=
  ⟨accounts, by rw [hq]; rfl, h⟩

/-- What the running call reads is put down in its account. -/
theorem accounted_hear {accounts : List Account} {s t : State} {got : Received ClientFrame}
    (hgot : Hears s got t) (h : Accounted accounts s) :
    Accounted (accounts.modifyLast (·.read got)) t := by
  obtain ⟨taken, hbooked, hstage⟩ := h
  have hlast {front : List Account} {c : Account} (hq : s.queued = none)
      (htaken : taken = front ++ [c]) :
      accounts.modifyLast (·.read got) = front ++ [c.read got] := by
    rw [booked_none hbooked hq, htaken, List.modifyLast_concat]
  cases hgot with
  | read k n inbox hbusy hk hpoll =>
    unfold State.reads? at hk
    split at hk
    · rename_i hp
      exact absurd hp hbusy
    · rename_i call body hp
      obtain rfl := Option.some.inj hk
      obtain ⟨hq, hone, c, ⟨hof, hcur, front, htaken, hclosed⟩, hreads⟩ :=
        (stage_gather_iff hp).mp hstage
      rw [hlast hq htaken]
      exact accounted_of_stage hq
        (stage_onGather (s := s) hpoll rfl hq hone hof hcur hclosed hreads)
    · rename_i call contents hp
      obtain rfl := Option.some.inj hk
      obtain ⟨hq, hm, c, bodies, ⟨hof, hcur, front, htaken, hclosed⟩, hreads, hfold⟩ :=
        (stage_collect_iff hp).mp hstage
      rw [hlast hq htaken]
      exact accounted_of_stage hq (stage_onCollect rfl hq hm hof hcur hclosed hreads hfold)
    · rename_i call x watch hp
      split at hk
      · rename_i hx
        obtain rfl := Option.some.inj hk
        obtain ⟨front, c, base, bodies, htaken, hclosed, hstream⟩ :=
          (stage_stream_iff hp).mp hstage
        obtain ⟨hm, hwatch, hq⟩ := hstream.listens (by rw [hx]; trivial)
        rw [hlast hq htaken]
        refine accounted_of_stage hq ((stage_stream_iff rfl).mpr
          ⟨front, c.read got, base, bodies, rfl, hclosed, ?_⟩)
        exact
          { isOf := hstream.isOf.read got
            written := hstream.written
            sent := hstream.sent
            going := fun hf => by
              obtain ⟨handed, hbodies, hhanded⟩ := hstream.going hf
              rw [hx] at hhanded
              exact ⟨handed, hbodies, handed_onListen hstream.isOf hhanded got⟩
            lost := hstream.lost
            speaks := fun _ => Or.inr (hm ▸ hstream.isOf.method)
            listens := fun _ => ⟨hm, hwatch, hq⟩
            watches := fun _ => hq }
      · cases hk
    · cases hk

theorem accounted_skip {accounts : List Account} {s : State} {got : Received ClientFrame}
    (place : Nat) (hopened : opened place got = []) (h : Accounted accounts s) :
    Accounted (accounts ++ opened place got) s := by
  rw [hopened, List.append_nil]
  exact h

/-- A call frame that is met begins an account; nothing else that is met leaves a trace. -/
theorem accounted_meet {accounts : List Account} {s t : State} {got : Received ClientFrame}
    (place : Nat) (hgot : Meets s got t) (h : Accounted accounts s) :
    Accounted (accounts ++ opened place got) t := by
  obtain ⟨taken, hbooked, hstage⟩ := h
  cases hgot with
  | idle n inbox hp hq hpoll =>
    have htaken := booked_none hbooked hq
    subst htaken
    obtain ⟨hcur, hclosed | ⟨⟨front, c, htaken, hclosed⟩, -, hinbox⟩⟩ :=
      (stage_idle_iff hp).mp hstage
    · rcases call_or_other got with ⟨path, metadata, rfl⟩ | ⟨hopened, -, hidle | ⟨failure, hover⟩⟩
      · exact accounted_of_stage hq (stage_startCall path metadata place rfl hq hcur hclosed)
      · have hstage' : Stage accounts { s with inbox, phase := onIdle got } :=
          (stage_idle_iff hidle).mpr ⟨hcur, Or.inl hclosed⟩
        exact accounted_skip place (hopened place) (accounted_of_stage hq hstage')
      · have hstage' : Stage accounts { s with inbox, phase := onIdle got } :=
          (stage_finished_iff hover).mpr (told_of_closed hclosed)
        exact accounted_skip place (hopened place) (accounted_of_stage hq hstage')
    -- a call was given up at the end of the stream, so there is nothing but that end to meet
    · obtain ⟨rfl, -⟩ := poll_of_closed hinbox hpoll
      have htold := told_of_silent c hclosed
      rw [← htaken] at htold
      exact accounted_skip place rfl (accounted_of_stage hq ((stage_finished_iff rfl).mpr htold))
  | watch n call work inbox hp hpoll =>
    have hq := queued_of_watch hp hstage
    have htaken := booked_none hbooked hq
    subst htaken
    rcases call_or_other got with ⟨path, metadata, rfl⟩ | ⟨hopened, hput, -⟩
    · refine ⟨accounts, ⟨place, rfl⟩, stage_watch inbox _ _ hp ?_ hstage⟩
      intro hon
      cases hon
    · have hnone : (onWatch got).2.or s.queued = none := by rw [hput, hq]; rfl
      refine accounted_skip place (hopened place) (accounted_of_stage hnone ?_)
      exact stage_watch inbox _ _ hp (fun _ => hnone) hstage

/-- The handler of the running call looks at something: its account is the last one of those that
were taken up. -/
theorem booked_look {accounts front : List Account} {c : Account}
    {queued : Option (String × Metadata)} (g : Reading)
    (h : Booked accounts (front ++ [c]) queued) :
    Booked (look queued accounts [g]) (front ++ [{ c with looked := some g }]) queued := by
  cases queued with
  | none =>
    obtain rfl : accounts = front ++ [c] := h
    exact List.modifyLast_concat _ _ _
  | some call =>
    obtain ⟨place, rfl⟩ := h
    refine ⟨place, ?_⟩
    simp only [look, List.dropLast_concat, List.getLast?_concat, Option.toList_some]
    rw [List.modifyLast_concat]

theorem accounted_kept {accounts : List Account} {s t : State} (clock : Clock) (r : Registry)
    (hno : (∃ call body watch, s.phase = .work call (.request body) watch) → t.phase = s.phase)
    (h : Accounted accounts t) : Accounted (look s.queued accounts (lookedAt clock r s t)) t := by
  have hnil : lookedAt clock r s t = [] :=
    lookedAt_eq_nil clock r t fun call body watch hp =>
      ⟨call, body, watch, (hno ⟨call, body, watch, hp⟩).trans hp⟩
  rw [hnil]
  exact h

/-- Whatever else moves keeps what the accounts say, whether the peer takes what is written or
not. -/
theorem accounted_step (clock : Clock) (accounts : List Account) (s t : State) (r r' : Registry)
    (hmove : Move clock (s, r) (t, r')) (hears : ∀ got, ¬ Hears s got t)
    (hmeets : ∀ got, ¬ Meets s got t) (h : Accounted accounts s) :
    Accounted (look s.queued accounts (lookedAt clock r s t)) t := by
  obtain ⟨taken, hbooked, hstage⟩ := h
  cases hmove with
  | fetch s r n hr hp ha hn =>
    refine accounted_kept clock r (fun _ => rfl) ⟨taken, hbooked, ?_⟩
    exact stage_inbox (s.inbox.take n) (fun hin => absurd (by rw [hin]) ha) s.outbox.gone hstage
  | read s r n k got inbox hk hpoll =>
    exact (hears_or_meets hk hpoll).elim (fun h => absurd h (hears got))
      fun h => absurd h (hmeets got)
  | watch s r n call work got inbox hp hpoll =>
    exact absurd (.watch n call work inbox hp hpoll) (hmeets got)
  | takeUp s r path metadata hp hq =>
    refine accounted_kept clock r (by simp [hp]) ?_
    obtain ⟨hcur, hclosed | ⟨-, hq', -⟩⟩ := (stage_idle_iff hp).mp hstage
    · rw [hq] at hbooked
      obtain ⟨place, rfl⟩ := hbooked
      exact accounted_of_stage rfl (stage_startCall path metadata place rfl rfl hcur hclosed)
    · rw [hq] at hq'
      cases hq'
  | answer s r call body watch o r' hp hs =>
    obtain ⟨-, hone, c, ⟨hof, hcur, front, rfl, hclosed⟩, hreads⟩ :=
      (stage_request_iff hp).mp hstage
    have hlook : lookedAt clock r s { s with phase := finish (o.map some) } =
        [⟨clock.now, r⟩] := by
      simp [lookedAt, hp, finish]
    rw [hlook]
    refine ⟨_, booked_look _ hbooked, stage_end rfl hcur hclosed ?_⟩
    refine .answered call.method body ⟨clock.now, r⟩ o hof.method hone hreads rfl ?_
    rw [hof.metadata, hs]
  | delay s r call body watch n request r' hp hs =>
    obtain ⟨hwatch, hone, c, ⟨hof, hcur, front, rfl, hclosed⟩, hreads⟩ :=
      (stage_request_iff hp).mp hstage
    have hlook : lookedAt clock r s
        { s with phase := .work call (.delay (clock.elapsed + n) request) watch } =
          [⟨clock.now, r⟩] := by
      simp [lookedAt, hp]
    rw [hlook]
    refine ⟨_, booked_look _ hbooked, (stage_delay_iff rfl).mpr ⟨hwatch, hone,
      { c with looked := some ⟨clock.now, r⟩ }, body, ⟨clock.now, r⟩, n,
      ⟨⟨hof.method, hof.metadata⟩, hcur, front, rfl, hclosed⟩, hreads, rfl, ?_⟩⟩
    rw [hs]
  | cancel s r call deadline request hp =>
    refine accounted_kept clock r (by simp [hp]) ?_
    obtain ⟨-, hone, c, body, g, n, ⟨hof, hcur, front, rfl, hclosed⟩, hreads, hlooked, hs⟩ :=
      (stage_delay_iff hp).mp hstage
    rw [← hof.metadata] at hs
    have hends := Account.Ends.delayed call.method body g n request _ hof.method hone hreads
      hlooked hs (Or.inr rfl)
    exact ⟨_, hbooked, stage_end rfl hcur hclosed hends⟩
  | expire s r call deadline request watch hp hd =>
    refine accounted_kept clock r (by simp [hp]) ?_
    obtain ⟨-, hone, c, body, g, n, ⟨hof, hcur, front, rfl, hclosed⟩, hreads, hlooked, hs⟩ :=
      (stage_delay_iff hp).mp hstage
    rw [← hof.metadata] at hs
    have hends := Account.Ends.delayed call.method body g n request _ hof.method hone hreads
      hlooked hs (Or.inl rfl)
    rw [hof.metadata] at hends
    exact ⟨_, hbooked, stage_end rfl hcur hclosed hends⟩
  | expand s r call x body watch hp hx =>
    refine accounted_kept clock r (by simp [hp]) ?_
    refine ⟨taken, hbooked, stage_stream_move hp rfl (fun hl => ?_) ?_ hstage⟩
    · unfold startExpand at hl
      split at hl <;> exact hl.elim
    · rintro c bodies hof - ⟨handed, hbodies, hhanded⟩
      exact ⟨handed, hbodies, handed_startExpand hof (hx ▸ hhanded)⟩
  | sent s r call x verdict watch hp hx =>
    refine accounted_kept clock r (by simp [hp]) ?_
    refine ⟨taken, hbooked, stage_stream_move hp rfl (fun hl => hl.elim) ?_ hstage⟩
    rintro c bodies hof - ⟨handed, hbodies, hhanded⟩
    exact ⟨handed, hbodies, handed_sent hof (hx ▸ hhanded)⟩
  | send s r call x y next watch hp hx hf hroom =>
    refine accounted_kept clock r (by simp [hp]) ?_
    refine ⟨taken, hbooked, stage_stream_move hp rfl (Handler.Listens.of_sends hx) ?_ hstage⟩
    rintro c bodies hof - ⟨handed, hbodies, hhanded⟩
    refine ⟨handed ++ [y], ?_, handed_sends hx hhanded⟩
    rw [List.map_append, ← List.append_assoc, hbodies, List.map_append]
  | refuse s r call x y next watch hp hx hf =>
    refine accounted_kept clock r (by simp [hp]) ?_
    refine ⟨taken, hbooked, stage_stream_move hp rfl (fun hl => hl.elim) ?_ hstage⟩
    intro c bodies hof hgoing
    rw [hf] at hgoing
    cases hgoing
  | forward s r call x y rest watch hp hcur hf hq =>
    refine accounted_kept clock r (by simp [hp]) ?_
    obtain ⟨front, c, base, bodies, htaken, hclosed, hstream⟩ := (stage_stream_iff hp).mp hstage
    obtain ⟨handed, hbodies, hhanded⟩ := hstream.going hf
    have hwritten : s.outbox.written = base ++ bodies.map .message := by
      have hsent := hstream.sent
      simpa [State.sent, hcur] using hsent
    have hsplit : (bodies ++ [bodyOf y]) ++ rest.map bodyOf = handed.map bodyOf := by
      rw [hq] at hbodies
      simpa using hbodies
    have hne : handed ≠ [] := by
      rintro rfl
      simp at hsplit
    refine ⟨taken, hbooked, (stage_stream_iff rfl).mpr
      ⟨front, c, base, bodies ++ [bodyOf y], htaken, hclosed, ?_⟩⟩
    exact
      { isOf := hstream.isOf
        written := hstream.written
        sent := by
          show s.outbox.written ++ [.message (bodyOf y)] = _
          rw [hwritten, List.map_append, List.append_assoc]
          rfl
        going := fun _ => ⟨handed, hsplit, hhanded⟩
        lost := fun h => by
          rw [hf] at h
          cases h
        speaks := fun _ => hhanded.speaks hstream.isOf hne
        listens := hstream.listens
        watches := hstream.watches }
  | endStream s r call x result watch hp hx hcur hf hq =>
    refine accounted_kept clock r (by simp [hp]) ?_
    obtain ⟨front, c, base, bodies, rfl, hclosed, hstream⟩ := (stage_stream_iff hp).mp hstage
    obtain ⟨handed, hbodies, hhanded⟩ := hstream.going hf
    rw [hx] at hhanded
    cases hhanded with
    | done result handed hends =>
      rw [← hbodies, hq, List.map_nil, List.append_nil] at hends
      exact ⟨_, hbooked, stage_finish rfl hclosed hends hstream.sent hstream.written⟩
  | giveUp s r call x result watch hp hx hcur hf =>
    refine accounted_kept clock r (by simp [hp]) ?_
    obtain ⟨front, c, base, bodies, rfl, hclosed, hstream⟩ := (stage_stream_iff hp).mp hstage
    have hwritten : s.outbox.written = base ++ bodies.map .message := by
      have hsent := hstream.sent
      simpa [State.sent, hcur] using hsent
    refine ⟨_, hbooked, (stage_finished_iff rfl).mpr ?_⟩
    show Told _ s.outbox.written
    rw [hwritten]
    exact told_of_open hclosed hstream.speaks
  | writePart s r f n outbox hw hcur hpush =>
    refine accounted_kept clock r (fun _ => rfl) ?_
    obtain ⟨m, -, rfl, -⟩ := push_part _ _ f n hpush
    refine ⟨taken, hbooked, stage_push hw ?_ (Nat.le_refl _) (by simp [hcur]) hstage⟩
    simp [State.sent, Outbox.written, hcur]
  | write s r f n outbox hw hcur hpush =>
    refine accounted_kept clock r (fun _ => rfl) ?_
    obtain ⟨hlog, hnone, -, -⟩ := push_complete _ _ f n hpush
    refine ⟨taken, hbooked, stage_push hw ?_ ?_ (by simp [hcur]) hstage⟩
    · simp [State.sent, Outbox.written, hcur, hlog, hnone]
    · simp [Outbox.written, hlog]
  | failStream s r call x watch f n hp hcur hpush =>
    refine accounted_kept clock r (by simp [hp]) ?_
    exact ⟨taken, hbooked, stage_failStream hp hcur hstage⟩
  | failLast s r frames f n hp hcur hpush =>
    refine accounted_kept clock r (by simp [hp]) ?_
    have htold := told_of_close hp hstage
    exact ⟨taken, hbooked, (stage_finished_iff rfl).mpr htold⟩
  | beginLast s r f rest hp hcur =>
    refine accounted_kept clock r (by simp [hp]) ?_
    obtain ⟨front, c, base, sent, o, htaken, hclosed, hends, hframes, hbase⟩ :=
      (stage_close_iff hp).mp hstage
    refine ⟨taken, hbooked, (stage_close_iff rfl).mpr
      ⟨front, c, base, sent, o, htaken, hclosed, hends, ?_, hbase⟩⟩
    rw [← hframes]
    simp [State.sent, Outbox.begin, hcur, Outbox.written]
  | endLast s r hp hcur =>
    refine accounted_kept clock r (by simp [hp]) ?_
    obtain ⟨front, c, base, sent, o, rfl, hclosed, hends, hframes, -⟩ :=
      (stage_close_iff hp).mp hstage
    have hwritten : s.outbox.written = base ++ (blockOf sent o).frames := by
      simpa [State.sent, hcur] using hframes
    refine ⟨_, hbooked, (stage_idle_iff rfl).mpr ⟨hcur, Or.inl ?_⟩⟩
    show Closed _ s.outbox.written
    rw [hwritten]
    exact closed_snoc hclosed hends

/-- All along a recorded run the accounts say what is written. -/
theorem accounted_run {capacity : Nat} {reads : Bool} {registry : Registry}
    {accounts : List Account} {h : History} {a : State × Registry}
    (hrun : Recorded (State.init capacity reads, registry) accounts h a) :
    Accounted accounts a.1 := by
  induction hrun with
  | start => exact accounted_of_stage rfl ((stage_idle_iff rfl).mpr ⟨rfl, Or.inl closed_nil⟩)
  | hear accounts h s r t r' clock got _ _ hgot ih => exact accounted_hear hgot ih
  | meet accounts h s r t r' clock got _ _ hgot ih => exact accounted_meet _ hgot ih
  | step accounts h s r t r' clock _ hstep hears hmeets ih =>
    have hmove := hstep.move
    exact accounted_step clock accounts s t r r' hmove hears hmeets ih
  | receive accounts h s r bytes _ hopen ih =>
    obtain ⟨taken, hbooked, hstage⟩ := ih
    refine ⟨taken, hbooked, stage_inbox _ (fun hin => ?_) s.outbox.gone hstage⟩
    rw [hin] at hopen
    cases hopen
  | close accounts h s r _ ih =>
    obtain ⟨taken, hbooked, hstage⟩ := ih
    exact ⟨taken, hbooked, stage_inbox _ (fun hin => by rw [hin]; rfl) s.outbox.gone hstage⟩
  | drop accounts h s r _ ih =>
    obtain ⟨taken, hbooked, hstage⟩ := ih
    exact ⟨taken, hbooked, stage_inbox _ (fun hin => by rw [hin]; rfl) true hstage⟩
  | share accounts h s r r' _ ih => exact ih

/-- Whatever is written: blocks for the first accounts, as their calls have ended, and then some
messages for the next one at most, if that one may have some. -/
theorem told_of_accounted {accounts : List Account} {s : State} (h : Accounted accounts s) :
    ∃ closed waiting, ∃ blocks : List Block, ∃ bodies : List Json,
      accounts = closed ++ waiting ∧ List.Forall₂ Account.Yields closed blocks ∧
      s.outbox.written = blocks.flatMap Block.frames ++ bodies.map .message ∧
      (bodies ≠ [] → ∃ c, waiting.head? = some c ∧ c.Speaks) := by
  obtain ⟨taken, hbooked, hstage⟩ := h
  obtain ⟨front, rest, base, bodies, rfl, -, ⟨blocks, hblocks, rfl⟩, hwritten, hspeaks⟩ :=
    told_of_stage hstage
  obtain ⟨more, hmore⟩ : ∃ more, accounts = front ++ (rest ++ more) := by
    cases hq : s.queued with
    | none => exact ⟨[], by simpa using booked_none hbooked hq⟩
    | some call =>
      rw [hq] at hbooked
      obtain ⟨place, hplace⟩ := hbooked
      exact ⟨_, by simpa using hplace⟩
  refine ⟨front, rest ++ more, blocks, bodies, hmore, hblocks, hwritten, fun hne => ?_⟩
  obtain ⟨c, rfl, hc⟩ := hspeaks hne
  exact ⟨c, rfl, hc⟩

/-- A block says what an outcome says: success with nothing to it, or the failure. -/
theorem blockOf_status (sent : List Json) (o : Outcome (Option Json)) :
    (∀ x, o.result = .ok x → (blockOf sent o).status = .ok) ∧
      (∀ s, o.result = .error s → (blockOf sent o).status = s) ∧
      (blockOf sent o).trailers = o.trailers := by
  obtain ⟨result, trailers⟩ := o
  cases result with
  | ok x =>
    refine ⟨fun _ _ => rfl, fun s h => ?_, rfl⟩
    cases h
  | error status =>
    refine ⟨fun x h => ?_, fun s h => Except.error.inj h, rfl⟩
    cases h

/-- Trailers go with success, and only with it: the block of a call whose handler has succeeded has
the inbound trailers, and that of any other call has its failure and none. -/
theorem trailers_go_with_success (capacity : Nat) (reads : Bool) (registry : Registry)
    (accounts : List Account) (h : History) (a : State × Registry)
    (hrun : Recorded (State.init capacity reads, registry) accounts h a) :
    ∃ closed waiting, ∃ blocks : List Block, ∃ bodies : List Json,
      accounts = closed ++ waiting ∧
      a.1.outbox.written = blocks.flatMap Block.frames ++ bodies.map .message ∧
      List.Forall₂ (fun c b => ∃ sent o, c.Ends sent o ∧
        (∀ x, o.result = .ok x → b.status = ⟨.ok, "", []⟩ ∧ b.trailers.entries =
          (c.metadata.entries.filter fun p => Metadata.lowerAscii p.1 = "showcase-trailer").map
            fun p => ("showcase-trailer", p.2)) ∧
        (∀ s, o.result = .error s →
          b.status = s ∧ s.code ≠ .ok ∧ b.trailers.entries = [])) closed blocks := by
  obtain ⟨closed, waiting, blocks, bodies, haccounts, hyields, hwritten, -⟩ :=
    told_of_accounted (accounted_run hrun)
  refine ⟨closed, waiting, blocks, bodies, haccounts, hwritten, hyields.imp ?_⟩
  rintro c b ⟨sent, o, hends, rfl⟩
  obtain ⟨hok, herror, htrailers⟩ := blockOf_status sent o
  refine ⟨sent, o, hends, fun x hx => ⟨hok x hx, ?_⟩, fun s hs => ⟨herror s hs, ?_⟩⟩
  · rw [htrailers]
    exact hends.proper.entries_of_ok x hx
  · rw [htrailers]
    exact hends.proper.entries_of_error s hs

/-- A call of `Echo` with a trailer value under a key in mixed case. -/
theorem trailers_go_with_success_echo :
    ∃ accounts h a, Recorded (State.init 1 true, .empty) accounts h a ∧
      a.1.outbox.written.map (fun f => match f with
        | .message _ => none
        | .trailers s t => some (s.code, t.entries)) =
          [none, some (.ok, [("showcase-trailer", "x")])] ∧
      ∃ closed waiting, ∃ blocks : List Block, ∃ bodies : List Json,
        accounts = closed ++ waiting ∧
        a.1.outbox.written = blocks.flatMap Block.frames ++ bodies.map .message ∧
        closed.length = blocks.length := by
  let frames : List ClientFrame :=
    [.call "Echo" ⟨[("Other", "y"), ("Showcase-Trailer", "x")]⟩,
      .message (.object [("content", .string "hi")]), .halfClose]
  let bytes : List UInt8 := frames.flatMap fun f => Wire.encode f.toJson
  let start : State × Registry := (State.init 1 true, .empty)
  have hsent : Run start { History.empty with received := [] ++ bytes }
      (start.1.receive bytes, .empty) :=
    .receive _ _ _ bytes .start rfl
  obtain ⟨h, hrun⟩ := exists_run_of_schedule start ⟨0, epoch⟩ 30 _ _ hsent
  obtain ⟨accounts, hrecorded⟩ := exists_recorded hrun
  obtain ⟨closed, waiting, blocks, bodies, haccounts, hwritten, hall⟩ :=
    trailers_go_with_success 1 true .empty accounts h _ hrecorded
  exact ⟨accounts, h, _, hrecorded, by decide +kernel, closed, waiting, blocks, bodies, haccounts,
    hwritten, hall.length_eq⟩

end EchoServer.Connection
