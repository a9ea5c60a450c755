import Mathlib
import EchoServer.Proofs.Connection.Accounts
import EchoServer.Proofs.Connection.Interleaving
import EchoServer.Proofs.Connection.Pace
import EchoServer.Settings.Load

/-! `Talk` keeps a record of a call beside the run: what its handler has read and what it has put
into the queue. Whoever moves first, the call writes what the record says. -/
namespace EchoServer.Connection

open Wire (Inbox Received)

/-- What a handler makes of what it reads, up to its end or to where it waits for more: the
responses that it sends, and its result. -/
def Handler.run :
    Handler → List (Received ClientFrame) → List EchoResponse × Option (Except Status Unit)
  | h, [] => h.flush
  | h, got :: rest => match h.flush with
    | (responses, none) =>
      let (more, result) := (onListen got).run rest
      (responses ++ more, result)
    | (responses, some result) => (responses, some result)

/-- The responses that stand in the queue of a stream behind those that stood there before. -/
def handedOver (s t : State) : List EchoResponse :=
  match s.phase, t.phase with
  | .work _ (.stream x) _, .work _ (.stream y) _ => y.queue.drop x.queue.length
  | _, _ => []

/-- A run from `start` with a record of what the handlers of calls have read, and of the responses
that they have put into the queue. -/
inductive Talk (start : State × Registry) :
    List (Received ClientFrame) → List EchoResponse → History → State × Registry → Prop
  | start : Talk start [] [] .empty start
  | hear (heard handed h s r t r' clock got) (hrun : Talk start heard handed h (s, r))
      (hstep : Step clock (s, r) (t, r')) (hgot : Hears s got t) :
      Talk start (heard ++ [got]) handed (h.step clock r s t) (t, r')
  | step (heard handed h s r t r' clock) (hrun : Talk start heard handed h (s, r))
      (hstep : Step clock (s, r) (t, r')) (hears : ∀ got, ¬ Hears s got t) :
      Talk start heard (handed ++ handedOver s t) (h.step clock r s t) (t, r')
  | receive (heard handed h s r bytes) (hrun : Talk start heard handed h (s, r))
      (hopen : s.inbox.closed = false) :
      Talk start heard handed { h with received := h.received ++ bytes } (s.receive bytes, r)
  | close (heard handed h s r) (hrun : Talk start heard handed h (s, r)) :
      Talk start heard handed h (s.closeInput, r)
  | drop (heard handed h s r) (hrun : Talk start heard handed h (s, r)) :
      Talk start heard handed h (s.drop, r)
  | share (heard handed h s r r') (hrun : Talk start heard handed h (s, r)) :
      Talk start heard handed h (s, r')

section
variable {start a : State × Registry} {h : History} {heard : List (Received ClientFrame)}
  {handed : List EchoResponse}

theorem Talk.run (htalk : Talk start heard handed h a) : Run start h a := by
  induction htalk with
  | start => exact .start
  | hear heard handed h s r t r' clock got _ hstep _ ih => exact .step h s r t r' clock ih hstep
  | step heard handed h s r t r' clock _ hstep _ ih => exact .step h s r t r' clock ih hstep
  | receive heard handed h s r bytes _ hopen ih => exact .receive h s r bytes ih hopen
  | close heard handed h s r _ ih => exact .close h s r ih
  | drop heard handed h s r _ ih => exact .drop h s r ih
  | share heard handed h s r r' _ ih => exact .share h s r r' ih

/-- Every run has such a record. -/
theorem exists_talk (hrun : Run start h a) : ∃ heard handed, Talk start heard handed h a := by
  induction hrun with
  | start => exact ⟨[], [], .start⟩
  | step h s r t r' clock _ hstep ih =>
    obtain ⟨heard, handed, htalk⟩ := ih
    by_cases hgot : ∃ got, Hears s got t
    · obtain ⟨got, hgot⟩ := hgot
      exact ⟨_, _, .hear heard handed h s r t r' clock got htalk hstep hgot⟩
    · exact ⟨_, _, .step heard handed h s r t r' clock htalk hstep fun got h => hgot ⟨got, h⟩⟩
  | receive h s r bytes _ hopen ih =>
    obtain ⟨heard, handed, htalk⟩ := ih
    exact ⟨_, _, .receive heard handed h s r bytes htalk hopen⟩
  | close h s r _ ih =>
    obtain ⟨heard, handed, htalk⟩ := ih
    exact ⟨_, _, .close heard handed h s r htalk⟩
  | drop h s r _ ih =>
    obtain ⟨heard, handed, htalk⟩ := ih
    exact ⟨_, _, .drop heard handed h s r htalk⟩
  | share h s r r' _ ih =>
    obtain ⟨heard, handed, htalk⟩ := ih
    exact ⟨_, _, .share heard handed h s r r' htalk⟩

end

/-- A handler that waits goes on with what it reads next. -/
theorem Handler.run_snoc (handler : Handler) (heard : List (Received ClientFrame))
    (got : Received ClientFrame) (handed : List EchoResponse)
    (h : handler.run heard = (handed, none)) :
    handler.run (heard ++ [got]) =
      (handed ++ (onListen got).flush.1, (onListen got).flush.2) := by
  induction heard generalizing handler handed with
  | nil =>
    rw [Handler.run] at h
    simp [Handler.run, h]
  | cons first rest ih =>
    rw [Handler.run] at h
    cases hflush : handler.flush with
    | mk responses result =>
      rw [hflush] at h
      cases result with
      | some result => cases h
      | none =>
        obtain ⟨rfl, hnone⟩ := Prod.mk.inj h
        have hmore := ih (onListen first) ((onListen first).run rest).1 (Prod.ext rfl hnone)
        rw [List.cons_append, Handler.run, hflush]
        simp [hmore]

theorem messages_append (xs ys : List EchoResponse) :
    messages (xs ++ ys) = messages xs ++ messages ys := List.map_append

/-- The last frames of a stream whose handler has come to `result`. -/
def endFrames (call : Call) (result : Except Status Unit) : List ServerFrame :=
  lastFrames ((Outcome.of call.metadata result).map fun _ => none)

/-- The frames of a call whose handler began as `handler`, behind those that were sent before: what
the record says of the call, which is over. -/
def Spoken (before : List ServerFrame) (call : Call) (handler : Handler)
    (heard : List (Received ClientFrame)) (handed : List EchoResponse)
    (frames : List ServerFrame) : Prop :=
  ∃ result, handler.run heard = (handed, some result) ∧
    frames = before ++ messages handed ++ endFrames call result

/-- How far a call has come in the state `t`. While it runs, what was sent of it and what stands in
the queue are together what its handler has put there. -/
def Carried (before : List ServerFrame) (call : Call) (handler : Handler)
    (heard : List (Received ClientFrame)) (handed : List EchoResponse) (t : State) : Prop :=
  match t.phase with
  | .work call' (.stream x) _ => call' = call ∧ x.forwarding = true ∧
      t.sent ++ messages x.queue = before ++ messages handed ∧
      handler.run heard = (handed ++ x.handler.flush.1, x.handler.flush.2)
  | .close frames => Spoken before call handler heard handed (t.sent ++ frames)
  | .idle => t.outbox.current = none ∧ Spoken before call handler heard handed t.sent
  | .finished _ => t.outbox.current = none ∧ Spoken before call handler heard handed t.sent
  | _ => False

section
variable {before : List ServerFrame} {call : Call} {handler : Handler}
  {heard : List (Received ClientFrame)} {handed : List EchoResponse} {s t : State}

theorem carried_stream_iff {call' : Call} {x : Stream} {watch : Watch}
    (hp : t.phase = .work call' (.stream x) watch) :
    Carried before call handler heard handed t ↔ call' = call ∧ x.forwarding = true ∧
      t.sent ++ messages x.queue = before ++ messages handed ∧
      handler.run heard = (handed ++ x.handler.flush.1, x.handler.flush.2) := by
  unfold Carried
  rw [hp]

theorem carried_close_iff {frames : List ServerFrame} (hp : t.phase = .close frames) :
    Carried before call handler heard handed t ↔
      Spoken before call handler heard handed (t.sent ++ frames) := by
  unfold Carried
  rw [hp]

theorem carried_over_iff (hp : t.phase = .idle ∨ ∃ failure, t.phase = .finished failure) :
    Carried before call handler heard handed t ↔
      t.outbox.current = none ∧ Spoken before call handler heard handed t.sent := by
  unfold Carried
  rcases hp with hp | ⟨failure, hp⟩ <;> rw [hp]

/-- What neither the phase nor the frames sent are changed by. -/
theorem carried_congr (hp : t.phase = s.phase) (hcur : t.outbox.current = s.outbox.current)
    (hsent : t.sent = s.sent) (h : Carried before call handler heard handed s) :
    Carried before call handler heard handed t := by
  unfold Carried at h ⊢
  rwa [hp, hcur, hsent]

/-- A call that was carried somewhere runs, closes or is over. -/
theorem Carried.not_single {call' : Call} {work : Work} {watch : Watch}
    (h : Carried before call handler heard handed s) (hp : s.phase = .work call' work watch) :
    ∃ x, work = .stream x := by
  unfold Carried at h
  rw [hp] at h
  cases work with
  | stream x => exact ⟨x, rfl⟩
  | request body => exact h.elim
  | delay deadline request => exact h.elim

theorem carried_hear {got : Received ClientFrame} (hgot : Hears s got t)
    (h : Carried before call handler heard handed s) :
    Carried before call handler (heard ++ [got]) handed t := by
  obtain ⟨k, n, inbox, hbusy, hk, hpoll⟩ := hgot
  unfold State.reads? at hk
  split at hk
  · rename_i hp
    exact absurd hp hbusy
  · rename_i hp
    simp [Carried, hp] at h
  · rename_i hp
    simp [Carried, hp] at h
  · rename_i call' x watch hp
    split at hk
    · rename_i hx
      obtain rfl := Option.some.inj hk
      obtain ⟨rfl, hf, hsent, hrun⟩ := (carried_stream_iff hp).mp h
      refine (carried_stream_iff (x := { x with handler := onListen got }) rfl).mpr
        ⟨rfl, hf, hsent, ?_⟩
      rw [hx] at hrun
      exact handler.run_snoc heard got handed (by simpa [Handler.flush] using hrun)
    · cases hk
  · cases hk

/-- A step of a stream in which the handler puts `fresh` into the queue, and the forwarder begins
to write `taken`. -/
theorem carried_stream_step {call' : Call} {x y : Stream} {watch : Watch}
    {fresh : List EchoResponse} (taken : List EchoResponse)
    (hp : s.phase = .work call' (.stream x) watch)
    (ht : t.phase = .work call' (.stream y) watch) (hf : y.forwarding = x.forwarding)
    (hsent : t.sent = s.sent ++ messages taken) (hqueue : taken ++ y.queue = x.queue ++ fresh)
    (hflush : x.handler.flush = (fresh ++ y.handler.flush.1, y.handler.flush.2))
    (h : Carried before call handler heard handed s) :
    Carried before call handler heard (handed ++ fresh) t := by
  obtain ⟨rfl, hforward, hs, hrun⟩ := (carried_stream_iff hp).mp h
  refine (carried_stream_iff ht).mpr ⟨rfl, hf.trans hforward, ?_, ?_⟩
  · calc t.sent ++ messages y.queue = s.sent ++ messages (taken ++ y.queue) := by
          simp [hsent, messages_append]
      _ = s.sent ++ messages x.queue ++ messages fresh := by simp [hqueue, messages_append]
      _ = before ++ messages (handed ++ fresh) := by simp [hs, messages_append]
  · rw [hrun, hflush, List.append_assoc]

theorem handedOver_of_stream {call call' : Call} {x y : Stream} {watch watch' : Watch}
    (hp : s.phase = .work call (.stream x) watch) (ht : t.phase = .work call' (.stream y) watch') :
    handedOver s t = y.queue.drop x.queue.length := by
  simp [handedOver, hp, ht]

theorem handedOver_of_other (h : (∀ call x watch, s.phase ≠ .work call (.stream x) watch) ∨
    ∀ call x watch, t.phase ≠ .work call (.stream x) watch) : handedOver s t = [] := by
  unfold handedOver
  split
  · rename_i hp ht
    rcases h with h | h
    · exact absurd hp (h _ _ _)
    · exact absurd ht (h _ _ _)
  · rfl

theorem handedOver_of_same (hp : t.phase = s.phase) : handedOver s t = [] := by
  unfold handedOver
  split
  · rename_i call x watch call' y watch' hs ht
    rw [hp, hs] at ht
    obtain ⟨-, hx, -⟩ := Phase.work.inj ht
    obtain rfl := Work.stream.inj hx
    exact List.drop_length
  · rfl

/-- Pieces of writing change nothing. -/
theorem carried_push {outbox : Outbox} (hwrites : s.phase.Writes)
    (hsent : { s with outbox }.sent = s.sent) (h : Carried before call handler heard handed s) :
    Carried before call handler heard (handed ++ handedOver s { s with outbox })
      { s with outbox } := by
  have hnone : handedOver s { s with outbox } = [] := handedOver_of_same rfl
  rw [hnone, List.append_nil]
  unfold Phase.Writes at hwrites
  split at hwrites
  · rename_i frames hp
    exact (carried_close_iff (t := { s with outbox }) hp).mpr
      (by rw [hsent]; exact (carried_close_iff hp).mp h)
  · rename_i call' x watch hp
    exact (carried_stream_iff (t := { s with outbox }) hp).mpr
      (by rw [hsent]; exact (carried_stream_iff hp).mp h)
  · exact hwrites.elim

/-- Every move carries the call on, as long as writes succeed and no other call is taken up. -/
theorem carried_step {clock : Clock} {r r' : Registry} (hmove : Move clock (s, r) (t, r'))
    (hears : ∀ got, ¬ Hears s got t) (hcalls : s.nextCall? = none)
    (hgone : s.outbox.gone = false) (h : Carried before call handler heard handed s) :
    Carried before call handler heard (handed ++ handedOver s t) t := by
  have hsame (hp : t.phase = s.phase) (hcur : t.outbox.current = s.outbox.current)
      (hsent : t.sent = s.sent) :
      Carried before call handler heard (handed ++ handedOver s t) t := by
    rw [handedOver_of_same hp, List.append_nil]
    exact carried_congr hp hcur hsent h
  cases hmove with
  | fetch s r n hr hparse ha hn => exact hsame rfl rfl rfl
  | read s r n k got inbox hk hpoll =>
    rcases hears_or_meets hk hpoll with hgot | hmeets
    · exact absurd hgot (hears got)
    · have hp : s.phase = .idle := by
        by_contra hbusy
        exact hears got ⟨k, n, inbox, hbusy, hk, hpoll⟩
      have hq : s.queued = none := by
        unfold State.reads? at hk
        simp only [hp] at hk
        split at hk
        · rename_i hq
          simpa using hq
        · cases hk
      obtain rfl : onIdle = k := by simpa [State.reads?, hp, hq] using hk
      have hover := (carried_over_iff (.inl hp)).mp h
      rw [handedOver_of_other (.inl (by simp [hp])), List.append_nil]
      rw [nextCall?_of_read n got inbox hp hq hpoll] at hcalls
      -- a frame that is no call leaves the main loop idle
      rcases call_or_other got with ⟨path, metadata, rfl⟩ | ⟨-, -, hidle | ⟨failure, hover'⟩⟩
      · cases hcalls
      · exact (carried_over_iff (.inl hidle)).mpr hover
      · exact (carried_over_iff (.inr ⟨failure, hover'⟩)).mpr hover
  | takeUp s r path metadata hp hq => simp [State.nextCall?, hp, hq] at hcalls
  | watch s r n call' work got inbox hp hpoll =>
    obtain ⟨x, rfl⟩ := h.not_single hp
    rw [handedOver_of_stream hp rfl, List.drop_length, List.append_nil]
    exact (carried_stream_iff rfl).mpr ((carried_stream_iff hp).mp h)
  | answer s r call' body watch o r' hp hs =>
    obtain ⟨x, hx⟩ := h.not_single hp
    cases hx
  | delay s r call' body watch n request r' hp hs =>
    obtain ⟨x, hx⟩ := h.not_single hp
    cases hx
  | cancel s r call' deadline request hp =>
    obtain ⟨x, hx⟩ := h.not_single hp
    cases hx
  | expire s r call' deadline request watch hp hd =>
    obtain ⟨x, hx⟩ := h.not_single hp
    cases hx
  | expand s r call' x body watch hp hx =>
    rw [handedOver_of_stream hp rfl, List.drop_length]
    refine carried_stream_step [] hp rfl rfl (by simp [State.sent, messages])
      (by simp) ?_ h
    rw [hx]
    unfold startExpand
    cases hr : Service.decodeRequest EchoRequest.decoder body <;> simp [Handler.flush, hr]
  | sent s r call' x verdict watch hp hx =>
    rw [handedOver_of_stream hp rfl, List.drop_length]
    exact carried_stream_step [] hp rfl rfl (by simp [State.sent, messages])
      (by simp) (by simp [hx, Handler.flush]) h
  | send s r call' x y next watch hp hx hf hroom =>
    rw [handedOver_of_stream hp rfl, List.drop_left]
    exact carried_stream_step [] hp rfl rfl (by simp [State.sent, messages])
      (by simp) (by rw [flush_of_sends _ next y hx]; rfl) h
  | refuse s r call' x y next watch hp hx hf =>
    obtain ⟨-, hforward, -⟩ := (carried_stream_iff hp).mp h
    rw [hforward] at hf
    cases hf
  | forward s r call' x y rest watch hp hcur hf hq =>
    rw [handedOver_of_stream hp rfl, List.drop_eq_nil_of_le (by simp [hq])]
    refine carried_stream_step [y] hp rfl rfl ?_ (by simp [hq]) (by simp) h
    simp [State.sent, hcur, Outbox.begin, Outbox.written, messages]
  | endStream s r call' x result watch hp hx hcur hf hq =>
    obtain ⟨rfl, -, hs, hrun⟩ := (carried_stream_iff hp).mp h
    rw [handedOver_of_other (.inr (by simp [streamEnd, finish])), List.append_nil]
    refine (carried_close_iff rfl).mpr ⟨result, by simpa [hx, Handler.flush] using hrun, ?_⟩
    rw [hq] at hs
    rw [← hs]
    simp [messages, endFrames, State.sent]
  | giveUp s r call' x result watch hp hx hcur hf =>
    obtain ⟨-, hforward, -⟩ := (carried_stream_iff hp).mp h
    rw [hforward] at hf
    cases hf
  | writePart s r f n outbox hwrites hcur hpush =>
    obtain ⟨m, -, rfl, -⟩ := push_part _ _ f n hpush
    exact carried_push hwrites (by simp [State.sent, Outbox.written, hcur]) h
  | write s r f n outbox hwrites hcur hpush =>
    obtain ⟨hlog, hnone, -⟩ := push_complete _ _ f n hpush
    exact carried_push hwrites (by simp [State.sent, Outbox.written, hcur, hlog, hnone]) h
  | failStream s r call' x watch f n hp hcur hpush =>
    rw [push_failed _ f n hpush] at hgone
    cases hgone
  | failLast s r frames f n hp hcur hpush =>
    rw [push_failed _ f n hpush] at hgone
    cases hgone
  | beginLast s r f rest hp hcur =>
    obtain ⟨result, hrun, hs⟩ := (carried_close_iff hp).mp h
    rw [handedOver_of_other (.inl (by simp [hp])), List.append_nil]
    refine (carried_close_iff rfl).mpr ⟨result, hrun, hs ▸ ?_⟩
    simp [State.sent, hcur, Outbox.begin, Outbox.written]
  | endLast s r hp hcur =>
    have hspoken := (carried_close_iff hp).mp h
    rw [List.append_nil] at hspoken
    rw [handedOver_of_other (.inl (by simp [hp])), List.append_nil]
    exact (carried_over_iff (.inl rfl)).mpr ⟨hcur, hspoken⟩

end

section
variable {call : Call} {handler : Handler} {heard : List (Received ClientFrame)}
  {handed : List EchoResponse} {s : State} {r : Registry} {h : History} {a : State × Registry}

theorem carried_run {watch : Watch} (htalk : Talk (s, r) heard handed h a)
    (hp : s.phase = .work call (.stream ⟨handler, [], true⟩) watch) (hcalls : h.calls = [])
    (hgone : a.1.outbox.gone = false) : Carried s.sent call handler heard handed a.1 := by
  induction htalk with
  | start => exact (carried_stream_iff hp).mpr ⟨rfl, rfl, rfl, rfl⟩
  | hear heard handed h t r t' r' clock got _ hstep hgot ih =>
    obtain ⟨hcalls, -⟩ := List.append_eq_nil_iff.mp hcalls
    have hopen := (peer_of_move hstep.move).2.symm.trans hgone
    exact carried_hear hgot (ih hcalls hopen)
  | step heard handed h t r t' r' clock _ hstep hears ih =>
    obtain ⟨hcalls, hnext⟩ := List.append_eq_nil_iff.mp hcalls
    have hmove := hstep.move
    have hopen := (peer_of_move hmove).2.symm.trans hgone
    have hnext : t.nextCall? = none := by simpa using hnext
    exact carried_step hmove hears hnext hopen (ih hcalls hopen)
  | receive heard handed h t r bytes _ hopen ih => exact carried_congr rfl rfl rfl (ih hcalls hgone)
  | close heard handed h t r _ ih => exact carried_congr rfl rfl rfl (ih hcalls hgone)
  | drop heard handed h t r _ ih => cases hgone
  | share heard handed h t r r' _ ih => exact ih hcalls hgone

/-- A handler that comes to its end of its own accord reads nothing. -/
theorem heard_eq_nil {watch : Watch} {result : Except Status Unit}
    (htalk : Talk (s, r) heard handed h a)
    (hp : s.phase = .work call (.stream ⟨handler, [], true⟩) watch) (hcalls : h.calls = [])
    (hgone : a.1.outbox.gone = false) (hflush : handler.flush.2 = some result) : heard = [] := by
  induction htalk with
  | start => rfl
  | hear heard handed h t r t' r' clock got htalk hstep hgot ih =>
    obtain ⟨hcalls, -⟩ := List.append_eq_nil_iff.mp hcalls
    have hopen := (peer_of_move hstep.move).2.symm.trans hgone
    obtain rfl := ih hcalls hopen
    have hcarried := carried_run htalk hp hcalls hopen
    obtain ⟨k, n, inbox, hbusy, hk, hpoll⟩ := hgot
    -- the handler that reads would wait, and this one does not
    unfold State.reads? at hk
    split at hk
    · rename_i hphase
      exact absurd hphase hbusy
    · rename_i hphase
      simp [Carried, hphase] at hcarried
    · rename_i hphase
      simp [Carried, hphase] at hcarried
    · rename_i call' x watch' hphase
      split at hk
      · rename_i hx
        obtain ⟨-, -, -, hrun⟩ := (carried_stream_iff hphase).mp hcarried
        rw [Handler.run, hx] at hrun
        rw [hrun] at hflush
        cases hflush
      · cases hk
    · cases hk
  | step heard handed h t r t' r' clock _ hstep hears ih =>
    exact ih (List.append_eq_nil_iff.mp hcalls).1
      ((peer_of_move hstep.move).2.symm.trans hgone)
  | receive heard handed h t r bytes _ hopen ih => exact ih hcalls hgone
  | close heard handed h t r _ ih => exact ih hcalls hgone
  | drop heard handed h t r _ ih => cases hgone
  | share heard handed h t r r' _ ih => exact ih hcalls hgone

/-- The last move of a schedule. -/
theorem run_succ (clock : Clock) (n : Nat) (start : State × Registry) :
    run clock (n + 1) start =
      ((move clock (run clock n start)).getD (run clock n start)) := by
  induction n generalizing start with
  | zero => cases hmove : move clock start <;> simp [run, hmove]
  | succ n ih =>
    cases hmove : move clock start with
    | none =>
      have hstay (k : Nat) : run clock k start = start := by
        cases k with
        | zero => rfl
        | succ k => simp [run, hmove]
      simp [hstay, hmove]
    | some b =>
      have hshift (k : Nat) : run clock (k + 1) start = run clock k b := by simp [run, hmove]
      rw [hshift, hshift, ih b]

/-- A schedule on which the main loop takes up no call. -/
theorem exists_talk_of_schedule {start : State × Registry} (clock : Clock) (n : Nat)
    (hno : ∀ k < n, (run clock k start).1.nextCall?.isNone = true) :
    ∃ heard handed h, Talk start heard handed h (run clock n start) ∧ h.calls = [] := by
  suffices hrun : ∃ h, Run start h (run clock n start) ∧ h.calls = [] by
    obtain ⟨h, hrun, hcalls⟩ := hrun
    obtain ⟨heard, handed, htalk⟩ := exists_talk hrun
    exact ⟨heard, handed, h, htalk, hcalls⟩
  induction n with
  | zero => exact ⟨_, .start, rfl⟩
  | succ n ih =>
    obtain ⟨h, hrun, hcalls⟩ := ih fun k hk => hno k (by omega)
    rw [run_succ]
    cases hmove : move clock (run clock n start) with
    | none => exact ⟨h, hrun, hcalls⟩
    | some b =>
      have hnext := hno n (by omega)
      refine ⟨_, .step h _ _ b.1 b.2 clock hrun (step_of_move hmove), ?_⟩
      simp [History.step, hcalls, Option.isNone_iff_eq_none.mp hnext]

theorem spoken_of_carried (h : Carried s.sent call handler heard handed a.1)
    (hover : a.1.BetweenCalls) :
    ∃ result, handler.run heard = (handed, some result) ∧
      a.1.outbox.written = s.sent ++ messages handed ++ endFrames call result := by
  obtain ⟨hcur, result, hrun, hsent⟩ := (carried_over_iff hover).mp h
  exact ⟨result, hrun, by simpa [State.sent, hcur] using hsent⟩

/-- How a stream that began in `s` stands in `t`. -/
structure Conveyed (s : State) (call : Call) (handler : Handler)
    (heard : List (Received ClientFrame)) (handed : List EchoResponse) (t : State) : Prop where
  /-- What is written and what waits are the responses sent since, in their order. -/
  running : ∀ call' x watch, t.phase = .work call' (.stream x) watch → call' = call ∧
    t.sent ++ messages x.queue = s.sent ++ messages handed
  /-- All of them are written, and then the last frames. -/
  ended : (∀ call' x watch, t.phase ≠ .work call' (.stream x) watch) →
    ∃ result, handler.run heard = (handed, some result) ∧
      t.outbox.written <+: s.sent ++ messages handed ++ endFrames call result ∧
      (t.BetweenCalls → t.outbox.written = s.sent ++ messages handed ++ endFrames call result)

theorem conveyed_of_carried (h : Carried s.sent call handler heard handed a.1) :
    Conveyed s call handler heard handed a.1 := by
  constructor
  · intro call' x watch' hx
    obtain ⟨hcall, -, hsent, -⟩ := (carried_stream_iff hx).mp h
    exact ⟨hcall, hsent⟩
  · intro hno
    have hover (hover : a.1.BetweenCalls) :
        ∃ result, handler.run heard = (handed, some result) ∧
          a.1.outbox.written <+: s.sent ++ messages handed ++ endFrames call result ∧
          (a.1.BetweenCalls →
            a.1.outbox.written = s.sent ++ messages handed ++ endFrames call result) := by
      obtain ⟨result, hrun, hwritten⟩ := spoken_of_carried h hover
      exact ⟨result, hrun, hwritten ▸ List.prefix_refl _, fun _ => hwritten⟩
    cases hphase : a.1.phase with
    | work call' work watch' =>
      obtain ⟨x, rfl⟩ := h.not_single hphase
      exact absurd hphase (hno call' x watch')
    | close frames =>
      obtain ⟨result, hrun, hsent⟩ := (carried_close_iff hphase).mp h
      refine ⟨result, hrun, ?_, fun hover => ?_⟩
      · rw [← hsent]
        exact (List.prefix_append _ _).trans (List.prefix_append _ _)
      · rcases hover with hidle | ⟨failure, hfinished⟩
        · cases hphase.symm.trans hidle
        · cases hphase.symm.trans hfinished
    | idle => exact hover (.inl hphase)
    | finished failure => exact hover (.inr ⟨failure, hphase⟩)
    | _ => simp [Carried, hphase] at h

/-- Where nobody can move, the call is over, or its handler waits for a request. -/
theorem spoken_or_waiting (h : Carried s.sent call handler heard handed a.1)
    (hrest : AtRest a.1) : a.1.BetweenCalls ∨
      handler.run heard = (handed, none) ∧ a.1.outbox.written = s.sent ++ messages handed := by
  rcases hrest with hfinished | ⟨hreads, -, hdone⟩
  · unfold State.isFinished at hfinished
    split at hfinished
    · rename_i failure hphase
      exact .inl (.inr ⟨failure, hphase⟩)
    · cases hfinished
  · unfold State.reads? at hreads
    split at hreads
    · rename_i hphase
      exact .inl (.inl hphase)
    · rename_i hphase
      simp [Carried, hphase] at h
    · rename_i hphase
      simp [Carried, hphase] at h
    · rename_i call' x watch' hphase
      split at hreads
      · rename_i hx
        obtain ⟨-, hf, hsent, hrun⟩ := (carried_stream_iff hphase).mp h
        obtain ⟨hqueue, hcur⟩ := hdone call' x watch' hphase hf
        rw [hx] at hrun
        refine .inr ⟨by simpa [Handler.flush] using hrun, ?_⟩
        simpa [hqueue, State.sent, hcur, messages] using hsent
      · exact absurd rfl hreads
    · exact absurd rfl hreads

/-- A connection that has broken down stays so: nothing is read, sent or written any more. -/
theorem lost_run (htalk : Talk (s, r) heard handed h a) (hbroken : s.isBroken = true) :
    heard = [] ∧ handed = [] ∧ a.1.outbox.written = s.outbox.written ∧ a.1.isBroken = true := by
  induction htalk with
  | start => exact ⟨rfl, rfl, rfl, hbroken⟩
  | hear heard handed h t r t' r' clock got _ hstep hgot ih =>
    cases ih.2.2.2.symm.trans hstep.whole
  | step heard handed h t r t' r' clock _ hstep hears ih =>
    cases ih.2.2.2.symm.trans hstep.whole
  | receive heard handed h t r bytes _ hopen ih => exact ih
  | close heard handed h t r _ ih => exact ih
  | drop heard handed h t r _ ih => exact ih
  | share heard handed h t r r' _ ih => exact ih

/-- The call that has made it break down does not end. -/
theorem lost_call {t : State} (hbroken : t.isBroken = true) :
    (∀ t', ¬ Next t t') ∧ ¬ t.BetweenCalls := by
  constructor
  · rintro t' ⟨clock, q, q', hstep⟩
    cases hbroken.symm.trans hstep.whole
  · rintro (hidle | ⟨failure, hfinished⟩)
    · cases hbroken.symm.trans (whole_of_phase hidle rfl)
    · cases hbroken.symm.trans (whole_of_phase hfinished rfl)

end

/-- What is written for a stream is what its handler sent, each response once and in order, whatever
the size of its queue. It is all written exactly if the queue can be made; otherwise nothing is. -/
theorem channel_hides_queues_that_can_be_made {capacity : Nat} {reads : Bool}
    {registry r : Registry} {h : History} {s : State} {call : Call} {handler : Handler}
    {watch : Watch} (hrun : Run (State.init capacity reads, registry) h (s, r))
    (hp : s.phase = .work call (.stream ⟨handler, [], true⟩) watch) :
    (∀ (heard : List (Received ClientFrame)) (handed : List EchoResponse) (g : History)
        (a : State × Registry), Talk (s, r) heard handed g a → g.calls = [] →
      a.1.outbox.gone = false → Conveyed s call handler heard handed a.1) ∧
    (CanQueue (max capacity 1) ↔ ∀ (heard : List (Received ClientFrame))
        (handed : List EchoResponse) (g : History) (a : State × Registry),
      Talk (s, r) heard handed g a → g.calls = [] →
        a.1.isBroken = false ∧ Acc (fun t s => Next s t) a.1 ∧
        (reads = true → a.1.outbox.gone = false → (∀ t, ¬ Next a.1 t) → a.1.BetweenCalls ∨
          handler.run heard = (handed, none) ∧
            a.1.outbox.written = s.sent ++ messages handed)) ∧
    (¬ CanQueue (max capacity 1) → ∀ (heard : List (Received ClientFrame))
        (handed : List EchoResponse) (g : History) (a : State × Registry),
      Talk (s, r) heard handed g a → heard = [] ∧ handed = [] ∧
        a.1.outbox.written = s.outbox.written ∧ (∀ t, ¬ Next a.1 t) ∧ ¬ a.1.BetweenCalls) ∧
    (∀ (capacity' : Nat) (reads' : Bool) (registry' r' : Registry) (h' : History) (s' : State)
        (watch' : Watch), Run (State.init capacity' reads', registry') h' (s', r') →
      s'.phase = .work call (.stream ⟨handler, [], true⟩) watch' →
      ∀ (heard : List (Received ClientFrame)) (handed handed' : List EchoResponse)
        (g g' : History) (a a' : State × Registry),
      Talk (s, r) heard handed g a → Talk (s', r') heard handed' g' a' →
      g.calls = [] → g'.calls = [] → a.1.outbox.gone = false → a'.1.outbox.gone = false →
      a.1.BetweenCalls → a'.1.BetweenCalls →
        handed = handed' ∧ ∃ frames, a.1.outbox.written = s.sent ++ frames ∧
          a'.1.outbox.written = s'.sent ++ frames) := by
  have hcapacity : s.capacity = max capacity 1 := capacity_of_run hrun
  refine ⟨fun heard handed g a htalk hcalls hgone =>
    conveyed_of_carried (carried_run htalk hp hcalls hgone), ⟨?_, ?_⟩, ?_, ?_⟩
  · intro hplaces heard handed g a htalk hcalls
    obtain ⟨f, hrun⟩ := hrun.trans htalk.run
    have hwhole : a.1.isBroken = false := whole_of_run hrun hplaces
    refine ⟨hwhole, next_wellFounded.apply _, fun hreads hgone hstill => ?_⟩
    subst hreads
    obtain ⟨hroom, hcap⟩ := room_of_run capacity registry f a hrun
    exact spoken_or_waiting (carried_run htalk hp hcalls hgone)
      (atRest_of_settled a.1 ⟨hwhole, hstill⟩ hgone hroom hcap)
  · -- the record without a step is enough
    intro hall
    by_contra hplaces
    have hbroken := (hall [] [] .empty (s, r) .start rfl).1
    rw [Bool.eq_false_iff, Ne, isBroken_iff, hp, hcapacity] at hbroken
    exact hbroken ⟨rfl, hplaces⟩
  · intro hplaces heard handed g a htalk
    have hbroken : s.isBroken = true := by
      rw [isBroken_iff, hp, hcapacity]
      exact ⟨rfl, hplaces⟩
    obtain ⟨hheard, hhanded, hwritten, hstays⟩ := lost_run htalk hbroken
    exact ⟨hheard, hhanded, hwritten, lost_call hstays⟩
  · intro capacity' reads' registry' r' h' s' watch' _ hp' heard handed handed' g g' a a' htalk
      htalk' hcalls hcalls' hgone hgone' hover hover'
    obtain ⟨result, hrun, hwritten⟩ :=
      spoken_of_carried (carried_run htalk hp hcalls hgone) hover
    obtain ⟨result', hrun', hwritten'⟩ :=
      spoken_of_carried (carried_run htalk' hp' hcalls' hgone') hover'
    obtain ⟨rfl, hresult⟩ := Prod.mk.inj (hrun.symm.trans hrun')
    obtain rfl := Option.some.inj hresult
    exact ⟨rfl, _, by rw [hwritten, List.append_assoc], by rw [hwritten', List.append_assoc]⟩

/-- The bytes of a call of `Expand`. -/
def callOfTwoWords : List UInt8 :=
  [ClientFrame.call "Expand" .empty, .message (.object [("content", .string "a b")]),
    .halfClose].flatMap fun f => Wire.encode f.toJson

/-- The connection that has read the call, with a queue of that size. -/
def expanding (capacity : Nat) : State :=
  { inbox := ⟨[], [], false⟩, outbox := .empty true, queued := none, capacity,
    phase := .work ⟨.expand, .empty⟩
      (.stream ⟨.start (.object [("content", .string "a b")]), [], true⟩) .on }

set_option maxRecDepth 10000 in
/-- The connection reads it; a queue for none counts as one for one. -/
theorem run_callOfTwoWords :
    run ⟨0, epoch⟩ 4 ((State.init 0 true).receive callOfTwoWords, .empty) =
        (expanding 1, .empty) ∧
      run ⟨0, epoch⟩ 4 ((State.init 3 true).receive callOfTwoWords, .empty) =
        (expanding 3, .empty) := by
  constructor <;> cbv

set_option maxRecDepth 10000 in
theorem run_callOfTwoWords_unqueued :
    run ⟨0, epoch⟩ 4 ((State.init 2305843009213693952 true).receive callOfTwoWords, .empty) =
      (expanding 2305843009213693952, .empty) := by
  cbv

theorem exists_run_expanding {capacity size : Nat}
    (h : run ⟨0, epoch⟩ 4 ((State.init capacity true).receive callOfTwoWords, .empty) =
      (expanding size, .empty)) :
    ∃ g, Run (State.init capacity true, .empty) g (expanding size, .empty) := by
  have hsent : Run (State.init capacity true, .empty)
      { History.empty with received := [] ++ callOfTwoWords }
      ((State.init capacity true).receive callOfTwoWords, .empty) :=
    .receive _ _ _ callOfTwoWords .start rfl
  obtain ⟨g, hrun⟩ := exists_run_of_schedule _ ⟨0, epoch⟩ 4 _ _ hsent
  exact ⟨g, h ▸ hrun⟩

/-- With a queue for one or for three the call comes to its end. -/
theorem exists_talk_expanding {size : Nat} (hsize : size = 1 ∨ size = 3) :
    ∃ handed h a, Talk (expanding size, .empty) [] handed h a ∧ h.calls = [] ∧
      a.1.outbox.gone = false ∧ a.1.phase = .idle := by
  have hno : ∀ k < 12, (run ⟨0, epoch⟩ k (expanding size, .empty)).1.nextCall?.isNone = true := by
    rcases hsize with rfl | rfl <;> decide +kernel
  have hgone : (run ⟨0, epoch⟩ 12 (expanding size, .empty)).1.outbox.gone = false := by
    rcases hsize with rfl | rfl <;> decide +kernel
  have hidle : (run ⟨0, epoch⟩ 12 (expanding size, .empty)).1.phase = .idle := by
    rcases hsize with rfl | rfl <;> cbv
  obtain ⟨heard, handed, h, htalk, hcalls⟩ := exists_talk_of_schedule ⟨0, epoch⟩ 12 hno
  obtain ⟨result, hflush⟩ : ∃ result, (Handler.start (.object [("content", .string "a b")])).flush.2
      = some result := Option.isSome_iff_exists.mp (by decide +kernel)
  obtain rfl := heard_eq_nil htalk rfl hcalls hgone hflush
  exact ⟨handed, h, _, htalk, hcalls, hgone, hidle⟩

/-- A call of `Expand` with two words, once with a queue for none, which counts as one, and once
with a queue for three. -/
theorem channel_hides_queues_that_can_be_made_two_words :
    ∃ handed handed' : List EchoResponse, ∃ g g' a a',
      Talk (expanding 1, .empty) [] handed g a ∧ Talk (expanding 3, .empty) [] handed' g' a' ∧
      (∃ result, (Handler.start (.object [("content", .string "a b")])).run [] =
          (handed, some result) ∧
        a.1.outbox.written = (expanding 1).sent ++ messages handed ++
          endFrames ⟨.expand, .empty⟩ result) ∧
      handed = handed' ∧ ∃ frames, a.1.outbox.written = (expanding 1).sent ++ frames ∧
        a'.1.outbox.written = (expanding 3).sent ++ frames := by
  obtain ⟨h, hrun⟩ := exists_run_expanding run_callOfTwoWords.1
  obtain ⟨h', hrun'⟩ := exists_run_expanding run_callOfTwoWords.2
  obtain ⟨handed, g, a, htalk, hcalls, hgone, hidle⟩ := exists_talk_expanding (.inl rfl)
  obtain ⟨handed', g', a', htalk', hcalls', hgone', hidle'⟩ := exists_talk_expanding (.inr rfl)
  obtain ⟨hconveyed, -, -, htwo⟩ := channel_hides_queues_that_can_be_made hrun rfl
  obtain ⟨result, hresult, -, hwritten⟩ := (hconveyed [] handed g a htalk hcalls hgone).ended
    fun call' x watch' hphase => nomatch hidle.symm.trans hphase
  exact ⟨handed, handed', g, g', a, a', htalk, htalk',
    ⟨result, hresult, hwritten (.inl hidle)⟩,
    htwo 3 true .empty .empty h' (expanding 3) .on hrun' rfl [] handed handed' g g' a a' htalk
      htalk' hcalls hcalls' hgone hgone' (.inl hidle) (.inl hidle')⟩

/-- The same call with a queue for three, and with one place more than a queue can have, which is
accepted. The second says nothing, and does not end. -/
theorem lost_queue_shows :
    (∃ s, Settings.load (fun _ => .error "") ["--stream-buffer", "2305843009213693952"] = .ok s ∧
      s.streamBuffer.toNat = 2305843009213693952) ∧
    (∃ g, Run (State.init 3 true, .empty) g (expanding 3, .empty)) ∧
    (∃ g, Run (State.init 2305843009213693952 true, .empty) g
      (expanding 2305843009213693952, .empty)) ∧
    (∃ g a, Talk (expanding 3, .empty) [] [.ofContent "a", .ofContent "b"] g a ∧
      a.1.BetweenCalls ∧
      a.1.outbox.written = messages [.ofContent "a", .ofContent "b"] ++
        endFrames ⟨.expand, .empty⟩ (.ok ())) ∧
    (∀ heard handed g a, Talk (expanding 2305843009213693952, .empty) heard handed g a →
      handed = [] ∧ a.1.outbox.written = [] ∧ ¬ a.1.BetweenCalls ∧ ∀ t, ¬ Next a.1 t) := by
  have hsettings : (Settings.load (fun _ => .error "")
      ["--stream-buffer", "2305843009213693952"]).toOption.map (·.streamBuffer.toNat) =
        some 2305843009213693952 := by decide +kernel
  refine ⟨?_, exists_run_expanding run_callOfTwoWords.2,
    exists_run_expanding run_callOfTwoWords_unqueued, ?_, ?_⟩
  · cases hs : Settings.load (fun _ => .error "") ["--stream-buffer", "2305843009213693952"] with
    | error e =>
      rw [hs] at hsettings
      cases hsettings
    | ok s =>
      rw [hs] at hsettings
      exact ⟨s, rfl, Option.some.inj hsettings⟩
  · obtain ⟨handed, g, a, htalk, hcalls, hgone, hidle⟩ := exists_talk_expanding (.inr rfl)
    obtain ⟨result, hresult, hwritten⟩ :=
      spoken_of_carried (carried_run htalk rfl hcalls hgone) (.inl hidle)
    have hsaid : (Handler.start (.object [("content", .string "a b")])).run [] =
        ([.ofContent "a", .ofContent "b"], some (.ok ())) := by cbv
    obtain ⟨rfl, hend⟩ := Prod.mk.inj (hsaid.symm.trans hresult)
    obtain rfl := Option.some.inj hend
    exact ⟨g, a, htalk, .inl hidle, hwritten⟩
  · intro heard handed g a htalk
    have hbroken : (expanding 2305843009213693952).isBroken = true := by decide
    obtain ⟨-, rfl, hwritten, hstays⟩ := lost_run htalk hbroken
    obtain ⟨hstill, hover⟩ := lost_call hstays
    exact ⟨rfl, hwritten, hover, hstill⟩

end EchoServer.Connection
