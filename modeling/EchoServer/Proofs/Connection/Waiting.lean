import EchoServer.Proofs.Connection.Carrying
import EchoServer.Proofs.Connection.Interleaving

namespace EchoServer.Connection

open Wire (Inbox Received)

/-- A request that is answered at once is not one of `Expand`. -/
def Phase.Unary (p : Phase) : Prop :=
  ∀ call body watch, p = .work call (.request body) watch → call.method ≠ .expand

section
variable {clock : Clock} {s t : State} {r r' : Registry}

theorem unary_startCall (path : String) (metadata : Metadata) :
    (startCall path metadata).Unary := by
  intro call body watch hp
  unfold startCall at hp
  split at hp <;> cases hp

theorem unary_read {k : Received ClientFrame → Phase} (hk : s.reads? = some k)
    (got : Received ClientFrame) : (k got).Unary := by
  have hworkOf (call : Call) (body : Json) : (workOf call body).Unary := by
    intro call' body' watch hp
    unfold workOf at hp
    split at hp
    · cases hp
    · rename_i hne
      cases hp
      exact hne
  unfold State.reads? at hk
  split at hk
  · split at hk
    · obtain rfl := Option.some.inj hk
      rcases call_or_other got with ⟨path, metadata, rfl⟩ | ⟨-, -, hidle | ⟨failure, hover⟩⟩
      · exact unary_startCall path metadata
      · intro call body watch hp
        cases hidle.symm.trans hp
      · intro call body watch hp
        cases hover.symm.trans hp
    · cases hk
  · rename_i call body hp
    obtain rfl := Option.some.inj hk
    unfold onGather
    split
    · split <;> exact fun _ _ _ h => by cases h
    · split
      · exact fun _ _ _ h => by cases h
      · exact hworkOf _ _
    all_goals exact fun _ _ _ h => by cases h
  · rename_i call contents hp
    obtain rfl := Option.some.inj hk
    unfold onCollect
    split
    · exact fun _ _ _ h => by cases h
    · split <;> exact fun _ _ _ h => by cases h
  · split at hk
    · obtain rfl := Option.some.inj hk
      exact fun _ _ _ h => by cases h
    · cases hk
  · cases hk

theorem unary_move (hmove : Move clock (s, r) (t, r')) (h : s.phase.Unary) : t.phase.Unary := by
  cases hmove with
  | read s r n k got inbox hk hpoll => exact unary_read hk got
  | takeUp s r path metadata hp hq => exact unary_startCall path metadata
  | watch s r n call work got inbox hp hpoll =>
    intro call' body watch hwork
    obtain ⟨rfl, rfl, -⟩ := Phase.work.inj hwork
    exact h _ _ _ hp
  | fetch s r n hreads hp ha hn => exact h
  | writePart s r f n outbox hw hcur hpush => exact h
  | write s r f n outbox hw hcur hpush => exact h
  | _ => exact fun _ _ _ hwork => by cases hwork

theorem unary_run {capacity : Nat} {reads : Bool} {registry : Registry} {h : History}
    {a : State × Registry} (hrun : Run (State.init capacity reads, registry) h a) :
    a.1.phase.Unary := by
  induction hrun with
  | start => exact fun _ _ _ hp => by cases hp
  | step h s r t r' clock _ hstep ih => exact unary_move hstep.move ih
  | receive h s r bytes _ _ ih => exact ih
  | close h s r _ ih => exact ih
  | drop h s r _ ih => exact ih
  | share h s r r' _ ih => exact ih

/-- Only the answer to a request looks at the registry. -/
theorem lookedAt_cases (clock : Clock) (r : Registry) (s t : State) :
    lookedAt clock r s t = [] ∨ ∃ call body watch, s.phase = .work call (.request body) watch ∧
      lookedAt clock r s t = [⟨clock.now, r⟩] := by
  unfold lookedAt
  split
  · exact Or.inl rfl
  · rename_i call body watch hp _
    exact Or.inr ⟨call, body, watch, hp, rfl⟩
  · exact Or.inl rfl

end

theorem mem_of_booked {accounts taken : List Account} {queued : Option (String × Metadata)}
    (h : Booked accounts taken queued) {c : Account} (hc : c ∈ accounts) :
    c ∈ taken ∨ c.looked = none := by
  cases queued with
  | none =>
    obtain rfl : accounts = taken := h
    exact Or.inl hc
  | some call =>
    obtain ⟨place, rfl⟩ := h
    refine (List.mem_append.mp hc).imp id fun hc => ?_
    rw [List.mem_singleton.mp hc]
    rfl

theorem mem_accounts_of_booked {accounts taken : List Account}
    {queued : Option (String × Metadata)} (h : Booked accounts taken queued) {c : Account}
    (hc : c ∈ taken) : c ∈ accounts := by
  cases queued with
  | none =>
    obtain rfl : accounts = taken := h
    exact hc
  | some call =>
    obtain ⟨place, rfl⟩ := h
    exact List.mem_append_left _ hc

/-- The handler of `Expand` does not look at anything. -/
theorem looked_of_expand {capacity : Nat} {reads : Bool} {registry : Registry}
    {accounts : List Account} {h : History} {a : State × Registry}
    (hrun : Recorded (State.init capacity reads, registry) accounts h a) :
    ∀ c ∈ accounts, Method.ofPath? c.path = some .expand → c.looked = none := by
  refine hrun.forall_accounts (fun _ _ _ _ => rfl) (fun _ _ _ _ _ hc => hc) ?_
  intro accounts h clock s r t hrun ih
  rcases lookedAt_cases clock r s t with hnone | ⟨call, body, watch, hp, hlook⟩
  · rw [hnone]
    exact ih
  · rw [hlook]
    obtain ⟨taken, hbooked, hstage⟩ := accounted_run hrun
    obtain ⟨-, -, c, ⟨hof, -, front, rfl, -⟩, -⟩ := (stage_request_iff hp).mp hstage
    intro x hx hexpand
    rcases mem_of_booked (booked_look ⟨clock.now, r⟩ hbooked) hx with hx | hx
    · rcases List.mem_append.mp hx with hx | hx
      · exact ih x (mem_accounts_of_booked hbooked (List.mem_append_left _ hx)) hexpand
      -- the account that was looked at is that of the running call
      · rw [List.mem_singleton.mp hx] at hexpand
        have hmethod : call.method = .expand := Option.some.inj (hof.method.symm.trans hexpand)
        exact absurd hmethod (unary_run hrun.run call body watch hp)
    · exact hx

/-- The stream ended or failed while the single request of the call was read. -/
def Account.CutOff (c : Account) : Prop :=
  ∃ m got, ∃ body : Option Json, Method.ofPath? c.path = some m ∧ readsOne m = true ∧
    c.reads = body.toList.map asked ++ [got] ∧ (got = .ended ∨ ∃ e, got = .failed e)

/-- All calls that were taken up are answered, but those that were given up. -/
def Cleared (accounts : List Account) (s : State) : Prop :=
  ∃ taken front rest, Booked accounts taken s.queued ∧ taken = front ++ rest ∧
    Closed front s.outbox.written ∧ ∀ c ∈ rest, c.CutOff

theorem cleared_of_closed {accounts taken : List Account} {s : State}
    (hbooked : Booked accounts taken s.queued) (hclosed : Closed taken s.outbox.written) :
    Cleared accounts s :=
  ⟨taken, taken, [], hbooked, by simp, hclosed, by simp⟩

/-- The phases between calls. -/
def Phase.Over : Phase → Prop
  | .idle => True
  | .finished _ => True
  | _ => False

theorem over_of_betweenCalls {s : State} (h : s.BetweenCalls) : s.phase.Over := by
  rcases h with h | ⟨failure, h⟩ <;> rw [h] <;> trivial

theorem not_over_startCall (path : String) (metadata : Metadata) :
    ¬ (startCall path metadata).Over := by
  unfold startCall
  split <;> exact id

theorem not_over_onCollect (call : Call) (contents : List String) (got : Received ClientFrame) :
    ¬ (onCollect call contents got).Over := by
  unfold onCollect
  split
  · exact id
  · split <;> exact id

/-- Only the end or a failure of the stream leads from a single request to no call. -/
theorem cut_of_over {call : Call} {body : Option Json} {got : Received ClientFrame}
    (h : (onGather call body got).Over) : got = .ended ∨ ∃ e, got = .failed e := by
  unfold onGather at h
  split at h
  · split at h <;> exact h.elim
  · split at h
    · exact h.elim
    · unfold workOf at h
      split at h <;> exact h.elim
  · exact h.elim
  · exact h.elim
  · exact Or.inl rfl
  · exact Or.inr ⟨_, rfl⟩

/-- A call whose reading ends between calls was given up. -/
theorem cleared_hear {accounts : List Account} {s t : State} {got : Received ClientFrame}
    (hgot : Hears s got t) (h : Accounted accounts s) (hover : t.BetweenCalls) :
    Cleared (accounts.modifyLast (·.read got)) t := by
  obtain ⟨taken, hbooked, hstage⟩ := h
  cases hgot with
  | read k n inbox hbusy hk hpoll =>
    unfold State.reads? at hk
    split at hk
    · rename_i hp
      exact absurd hp hbusy
    · rename_i call body hp
      obtain rfl := Option.some.inj hk
      obtain ⟨hq, hone, c, ⟨hof, hcur, front, rfl, hclosed⟩, hreads⟩ :=
        (stage_gather_iff hp).mp hstage
      have hcut := cut_of_over (over_of_betweenCalls hover)
      obtain rfl := booked_none hbooked hq
      rw [List.modifyLast_concat]
      refine ⟨_, front, [c.read got], by rw [hq]; rfl, rfl, hclosed, ?_⟩
      intro x hx
      rw [List.mem_singleton.mp hx]
      exact ⟨call.method, got, body, hof.method, hone, by rw [← hreads]; rfl, hcut⟩
    · rename_i call contents hp
      obtain rfl := Option.some.inj hk
      exact absurd (over_of_betweenCalls hover) (not_over_onCollect _ _ _)
    · split at hk
      · obtain rfl := Option.some.inj hk
        exact (over_of_betweenCalls hover).elim
      · cases hk
    · cases hk

/-- What the main loop meets between calls answers nothing. -/
theorem cleared_meet {accounts : List Account} {s t : State} {got : Received ClientFrame}
    (place : Nat) (hgot : Meets s got t) (h : s.BetweenCalls → Cleared accounts s)
    (hover : t.BetweenCalls) : Cleared (accounts ++ opened place got) t := by
  cases hgot with
  | idle n inbox hp hq hpoll =>
    rcases call_or_other got with ⟨path, metadata, rfl⟩ | ⟨hopened, -, -⟩
    · exact absurd (over_of_betweenCalls hover) (not_over_startCall path metadata)
    · rw [hopened, List.append_nil]
      exact h (Or.inl hp)
  | watch n call work inbox hp hpoll => exact (over_of_betweenCalls hover).elim

/-- Nobody else brings a connection between calls but the main loop that has written the last
frame of a call. -/
theorem cleared_step {clock : Clock} {accounts : List Account} {s t : State} {r r' : Registry}
    (hmove : Move clock (s, r) (t, r')) (hears : ∀ got, ¬ Hears s got t)
    (hmeets : ∀ got, ¬ Meets s got t) (hgone : s.outbox.gone = false)
    (hforwards : s.phase.Forwards) (haccounted : Accounted accounts s)
    (h : s.BetweenCalls → Cleared accounts s) (hover : t.BetweenCalls) :
    Cleared (look s.queued accounts (lookedAt clock r s t)) t := by
  -- bytes that are taken from the peer change neither the calls nor what is written
  have hkept (hsame : t.phase = s.phase) (hq : t.queued = s.queued)
      (hwritten : t.outbox.written = s.outbox.written) (hs : s.BetweenCalls) :
      Cleared (look s.queued accounts (lookedAt clock r s t)) t := by
    have hnil : lookedAt clock r s t = [] :=
      lookedAt_eq_nil clock r t fun call body watch hp => ⟨call, body, watch, hsame.trans hp⟩
    rw [hnil]
    obtain ⟨taken, front, rest, hbooked, hsplit, hclosed, hcut⟩ := h hs
    exact ⟨taken, front, rest, hq ▸ hbooked, hsplit, hwritten ▸ hclosed, hcut⟩
  cases hmove with
  | fetch s r n hreads hp ha hn => exact hkept rfl rfl rfl hover
  | read s r n k got inbox hk hpoll =>
    exact (hears_or_meets hk hpoll).elim (fun h => absurd h (hears got))
      fun h => absurd h (hmeets got)
  | watch s r n call work got inbox hp hpoll =>
    exact absurd (.watch n call work inbox hp hpoll) (hmeets got)
  | takeUp s r path metadata hp hq =>
    exact absurd (over_of_betweenCalls hover) (not_over_startCall path metadata)
  | writePart s r f n outbox hw hcur hpush =>
    have hno : ¬ s.phase.Over := by
      cases hp : s.phase <;> rw [hp] at hw <;> first | exact id | exact hw.elim
    exact absurd (over_of_betweenCalls hover) hno
  | write s r f n outbox hw hcur hpush =>
    have hno : ¬ s.phase.Over := by
      cases hp : s.phase <;> rw [hp] at hw <;> first | exact id | exact hw.elim
    exact absurd (over_of_betweenCalls hover) hno
  | giveUp s r call x result watch hp hx hcur hf =>
    rw [hforwards call x watch hp] at hf
    cases hf
  | failLast s r frames f n hp hcur hpush =>
    rw [push_failed _ f n hpush] at hgone
    cases hgone
  -- all frames of the call are written: its account is closed with its block
  | endLast s r hp hcur =>
    obtain ⟨taken, hbooked, hstage⟩ := haccounted
    obtain ⟨front, c, base, sent, o, rfl, hclosed, hends, hframes, -⟩ :=
      (stage_close_iff hp).mp hstage
    have hwritten : s.outbox.written = base ++ (blockOf sent o).frames := by
      simpa [State.sent, hcur] using hframes
    have hnil : lookedAt clock r s { s with phase := .idle } = [] := by simp [lookedAt, hp]
    rw [hnil]
    exact cleared_of_closed hbooked (hwritten ▸ closed_snoc hclosed hends)
  | _ => exact (over_of_betweenCalls hover).elim

/-- Between calls, while the peer is there, all calls that were taken up are answered but those
that were given up. -/
theorem cleared_run {capacity : Nat} {reads : Bool} {registry : Registry}
    {accounts : List Account} {h : History} {a : State × Registry}
    (hrun : Recorded (State.init capacity reads, registry) accounts h a)
    (hgone : a.1.outbox.gone = false) (hover : a.1.BetweenCalls) : Cleared accounts a.1 := by
  induction hrun with
  | start => exact cleared_of_closed rfl closed_nil
  | hear accounts h s r t r' clock got hrun _ hgot ih =>
    exact cleared_hear hgot (accounted_run hrun) hover
  | meet accounts h s r t r' clock got hrun hstep hgot ih =>
    have hthere := (peer_of_move hstep.move).2.symm.trans hgone
    exact cleared_meet _ hgot (ih hthere) hover
  | step accounts h s r t r' clock hrun hstep hears hmeets ih =>
    have hmove := hstep.move
    have hthere : s.outbox.gone = false := (peer_of_move hmove).2.symm.trans hgone
    have hforwards : s.phase.Forwards := fun call x watch hp =>
      ((orderly_stream_iff hp).mp (orderly_run _ _ _ _ _ hrun.run hthere)).2.1
    exact cleared_step hmove hears hmeets hthere hforwards (accounted_run hrun) (ih hthere) hover
  | receive accounts h s r bytes _ _ ih => exact ih hgone hover
  | close accounts h s r _ ih => exact ih hgone hover
  | drop accounts h s r _ ih => cases hgone
  | share accounts h s r r' _ ih => exact ih hgone hover

namespace Account

variable {c : Account} {s : Status} {messages : List Json}

/-- The handler of the call has all that it ends with: its single request was read to the end, or
the handler of its stream has failed. -/
def Due (c : Account) : Prop :=
  (∃ m body, Method.ofPath? c.path = some m ∧ readsOne m = true ∧
    c.reads = [asked body, .frame .halfClose]) ∨
  (Method.ofPath? c.path = some .collect ∧
    ∃ s, (Service.collect c.metadata c.requests).result = .error s) ∨
  (Method.ofPath? c.path = some .chat ∧ ∃ s, (Service.chatResponses none c.requests).2 = .error s)

theorem Carries.due (h : c.Carries s messages) (hs : s.code ≠ .ok) : c.Due := by
  cases h with
  | echo body r hm hreads hr he => exact Or.inl ⟨_, body, hm, rfl, hreads⟩
  | expand body r hm hreads hr he => exact Or.inl ⟨_, body, hm, rfl, hreads⟩
  | block body r hm hreads hr he => exact Or.inl ⟨_, body, hm, rfl, hreads⟩
  | collect before requests body r more hm hreads hbefore hr he =>
    refine Or.inr (Or.inl ⟨hm, s, ?_⟩)
    rw [requests_of_before hreads hbefore hr,
      Service.collect_failure _ _ _ (resolve_of_before hbefore) he hs]
    rfl
  | chat before requests body r more hm hreads hbefore hr he =>
    refine Or.inr (Or.inr ⟨hm, s, ?_⟩)
    have hchat : (Service.chat c.metadata none c.requests).2 = .fail s := by
      rw [requests_of_before hreads hbefore hr,
        Service.chat_failure _ _ _ (resolve_of_before hbefore) he hs]
    exact (Outcome.of_result _).symm.trans (congrArg Outcome.result hchat)

/-- A method with a single request is due exactly when that was read to its end. -/
theorem due_iff_of_single {m : Method} (hm : Method.ofPath? c.path = some m)
    (hone : readsOne m = true) : c.Due ↔ ∃ body, c.reads = [asked body, .frame .halfClose] := by
  constructor
  · rintro (⟨m', body, -, -, hreads⟩ | ⟨hm', -⟩ | ⟨hm', -⟩)
    · exact ⟨body, hreads⟩
    · cases Option.some.inj (hm.symm.trans hm')
      cases hone
    · cases Option.some.inj (hm.symm.trans hm')
      cases hone
  · rintro ⟨body, hreads⟩
    exact Or.inl ⟨m, body, hm, hone, hreads⟩

/-- As long as a single request is being read, the call is not due. -/
theorem not_due_of_part {m : Method} {body : Option Json} (hm : Method.ofPath? c.path = some m)
    (hone : readsOne m = true) (hreads : c.reads = body.toList.map asked) : ¬ c.Due := by
  rw [due_iff_of_single hm hone]
  rintro ⟨b, hreads'⟩
  have heq := hreads'.symm.trans hreads
  cases body <;> simp at heq

theorem not_due_of_cutOff (hcut : c.CutOff) : ¬ c.Due := by
  obtain ⟨m, got, body, hm, hone, hreads, hgot⟩ := hcut
  rw [due_iff_of_single hm hone]
  rintro ⟨b, hreads'⟩
  have heq := hreads'.symm.trans hreads
  cases body with
  | none => simp at heq
  | some body =>
    obtain ⟨-, rfl⟩ : asked b = asked body ∧ .frame .halfClose = got := by simpa using heq
    rcases hgot with h | ⟨e, h⟩ <;> cases h

theorem not_due_opening (path : String) (metadata : Metadata) (place : Nat) :
    ¬ (opening path metadata place).Due := by
  rintro (⟨m, body, -, -, hreads⟩ | ⟨-, s, hfailed⟩ | ⟨-, s, hfailed⟩)
  · cases hreads
  · cases hfailed
  · cases hfailed

end Account

/-- The first calls are answered by what is written, and none of the others is due. -/
def Answered (accounts : List Account) (written : List ServerFrame) : Prop :=
  ∃ closed waiting, ∃ blocks : List Block, ∃ bodies : List Json,
    accounts = closed ++ waiting ∧ List.Forall₂ Account.Yields closed blocks ∧
    written = blocks.flatMap Block.frames ++ bodies.map .message ∧ ∀ c ∈ waiting, ¬ c.Due

theorem answered_of_cleared {accounts : List Account} {s : State} (h : Cleared accounts s) :
    Answered accounts s.outbox.written := by
  obtain ⟨taken, front, rest, hbooked, rfl, ⟨blocks, hblocks, hwritten⟩, hcut⟩ := h
  have hrest : ∀ c ∈ rest, ¬ c.Due := fun c hc => Account.not_due_of_cutOff (hcut c hc)
  cases hq : s.queued with
  | none => exact ⟨front, rest, blocks, [], booked_none hbooked hq, hblocks, by simpa, hrest⟩
  | some call =>
    rw [hq] at hbooked
    obtain ⟨place, rfl⟩ := hbooked
    refine ⟨front, rest ++ [.opening call.1 call.2 place], blocks, [], by simp, hblocks,
      by simpa, fun c hc => ?_⟩
    rcases List.mem_append.mp hc with hc | hc
    · exact hrest c hc
    · rw [List.mem_singleton.mp hc]
      exact Account.not_due_opening _ _ _

/-- One call waits, behind others that are closed. -/
theorem answered_of_waiting {front : List Account} {c : Account} {base : List ServerFrame}
    (bodies : List Json) (hclosed : Closed front base) (hc : ¬ c.Due) :
    Answered (front ++ [c]) (base ++ bodies.map .message) := by
  obtain ⟨blocks, hblocks, rfl⟩ := hclosed
  refine ⟨front, [c], blocks, bodies, rfl, hblocks, rfl, fun x hx => ?_⟩
  rw [List.mem_singleton.mp hx]
  exact hc

/-- Who waits for a frame waits for a call that is not due. -/
theorem answered_of_reads {accounts : List Account} {s : State} (hreads : s.reads? ≠ none)
    (haccounted : Accounted accounts s) (hbetween : s.BetweenCalls → Cleared accounts s)
    (hflushed : ∀ call x watch, s.phase = .work call (.stream x) watch →
      x.forwarding = true ∧ x.queue = [] ∧ s.outbox.current = none) :
    Answered accounts s.outbox.written := by
  obtain ⟨taken, hbooked, hstage⟩ := haccounted
  unfold State.reads? at hreads
  split at hreads
  · rename_i hp
    exact answered_of_cleared (hbetween (Or.inl hp))
  · rename_i call body hp
    obtain ⟨hq, hone, c, ⟨hof, hcur, front, rfl, hclosed⟩, hc⟩ := (stage_gather_iff hp).mp hstage
    obtain rfl := booked_none hbooked hq
    rw [← List.append_nil s.outbox.written]
    exact answered_of_waiting [] hclosed (Account.not_due_of_part hof.method hone hc)
  · rename_i call contents hp
    obtain ⟨hq, hm, c, bodies, ⟨hof, hcur, front, rfl, hclosed⟩, hc, hfold⟩ :=
      (stage_collect_iff hp).mp hstage
    obtain rfl := booked_none hbooked hq
    rw [← List.append_nil s.outbox.written]
    refine answered_of_waiting [] hclosed fun h => ?_
    have hpath : Method.ofPath? c.path = some .collect := hm ▸ hof.method
    rcases h with ⟨m, body, hm', hone, -⟩ | ⟨-, status, hfailed⟩ | ⟨hm', -⟩
    · cases Option.some.inj (hm'.symm.trans hpath)
      cases hone
    · rw [Service.collect, hfold] at hfailed
      cases hfailed
    · cases hm'.symm.trans hpath
  · rename_i call x watch hp
    split at hreads
    · rename_i hx
      obtain ⟨hf, hempty, hcur⟩ := hflushed call x watch hp
      obtain ⟨front, c, base, bodies, rfl, hclosed, hstream⟩ := (stage_stream_iff hp).mp hstage
      obtain ⟨hm, -, hq⟩ := hstream.listens (by rw [hx]; trivial)
      obtain ⟨handed, -, hhanded⟩ := hstream.going hf
      obtain rfl := booked_none hbooked hq
      have hwritten : s.outbox.written = base ++ bodies.map .message := by
        simpa [State.sent, hcur] using hstream.sent
      rw [hwritten]
      refine answered_of_waiting bodies hclosed fun h => ?_
      have hpath : Method.ofPath? c.path = some .chat := hm ▸ hstream.isOf.method
      rw [hx] at hhanded
      cases hhanded with
      | listen bodies handed hm hreads hall =>
        rcases h with ⟨m, body, hm', hone, -⟩ | ⟨hm', -⟩ | ⟨-, status, hfailed⟩
        · cases Option.some.inj (hm'.symm.trans hpath)
          cases hone
        · cases hm'.symm.trans hpath
        · rw [hall] at hfailed
          cases hfailed
    · exact absurd rfl hreads
  · exact absurd rfl hreads

/-- At rest, with a peer that reads and is there, every call that is due is answered. -/
theorem answered_of_settled {capacity : Nat} {registry : Registry} {accounts : List Account}
    {h : History} {a : State × Registry}
    (hrun : Recorded (State.init capacity true, registry) accounts h a)
    (hgone : a.1.outbox.gone = false) (hsettled : Settled a.1) :
    Answered accounts a.1.outbox.written := by
  obtain ⟨hroom, hcap⟩ := room_of_run capacity registry h a hrun.run
  rcases atRest_of_settled a.1 hsettled hgone hroom hcap with hfinished | ⟨hreads, -, hflushed⟩
  · unfold State.isFinished at hfinished
    split at hfinished
    · rename_i failure hp
      exact answered_of_cleared (cleared_run hrun hgone (Or.inr ⟨failure, hp⟩))
    · cases hfinished
  · refine answered_of_reads hreads (accounted_run hrun) (cleared_run hrun hgone) ?_
    intro call x watch hp
    have hf := ((orderly_stream_iff hp).mp (orderly_run _ _ _ _ _ hrun.run hgone)).2.1
    exact ⟨hf, hflushed call x watch hp hf⟩

end EchoServer.Connection
