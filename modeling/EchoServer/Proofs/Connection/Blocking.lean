import EchoServer.Proofs.Connection.Carrying

namespace EchoServer.Connection

open Service (decodeRequest)

/-- The runs from the state `start` in which no watcher cancels a call before a further frame is
written. -/
inductive Uncancelled (start : State × Registry) : State × Registry → Prop
  | start : Uncancelled start start
  | step (s r t r' clock) (hrun : Uncancelled start (s, r)) (hstep : Step clock (s, r) (t, r'))
      (hcalm : t.outbox.written = start.1.outbox.written →
        ∀ call work, t.phase ≠ .work call work .cancelled) : Uncancelled start (t, r')
  | receive (s r bytes) (hrun : Uncancelled start (s, r)) (hopen : s.inbox.closed = false) :
      Uncancelled start (s.receive bytes, r)
  | close (s r) (hrun : Uncancelled start (s, r)) : Uncancelled start (s.closeInput, r)
  | drop (s r) (hrun : Uncancelled start (s, r)) : Uncancelled start (s.drop, r)
  | share (s r r') (hrun : Uncancelled start (s, r)) : Uncancelled start (s, r')

theorem Uncancelled.run {origin start a : State × Registry} {h : History}
    (hrun : Run origin h start) (hmore : Uncancelled start a) : ∃ h', Run origin h' a := by
  induction hmore with
  | start => exact ⟨h, hrun⟩
  | step s r t r' clock _ hstep _ ih => exact ih.imp' _ fun _ ih => .step _ s r t r' clock ih hstep
  | receive s r bytes _ hopen ih => exact ih.imp' _ fun _ ih => .receive _ s r bytes ih hopen
  | close s r _ ih => exact ih.imp' _ fun _ ih => .close _ s r ih
  | drop s r _ ih => exact ih.imp' _ fun _ ih => .drop _ s r ih
  | share s r r' _ ih => exact ih.imp' _ fun _ ih => .share _ s r r' ih

/-- The call is under way, and only the trailers frame with its status is to be written for it. -/
def Holding (before : List ServerFrame) (call : Call) (body : Json) (request : BlockRequest)
    (status : Status) (s : State) : Prop :=
  match s.phase with
  | .work call' (.request body') watch => call' = call ∧ body' = body ∧ watch ≠ .cancelled ∧
      s.outbox.current = none ∧ s.outbox.written = before
  | .work call' (.delay _ request') watch => call' = call ∧ request' = request ∧
      watch ≠ .cancelled ∧ s.outbox.current = none ∧ s.outbox.written = before
  | .close frames => s.sent ++ frames = before ++ [.trailers status .empty] ∧
      s.outbox.written = before
  | .finished _ => s.outbox.written = before ∧ s.outbox.gone = true
  | _ => False

section
variable {before : List ServerFrame} {call : Call} {body : Json} {request : BlockRequest}
  {status : Status} {clock : Clock} {s t : State} {r r' : Registry}

theorem written_of_holding (h : Holding before call body request status s) :
    s.outbox.written = before := by
  unfold Holding at h
  split at h
  · exact h.2.2.2.2
  · exact h.2.2.2.2
  · exact h.2
  · exact h.1
  · exact h.elim

/-- Only the last frames are written for such a call. -/
theorem close_of_holding (hw : s.phase.Writes)
    (h : Holding before call body request status s) :
    ∃ frames, s.phase = .close frames ∧
      s.sent ++ frames = before ++ [.trailers status .empty] := by
  unfold Holding at h
  unfold Phase.Writes at hw
  split at hw
  · rename_i frames hp
    rw [hp] at h
    exact ⟨frames, hp, h.1⟩
  · rename_i call' x watch hp
    rw [hp] at h
    exact h.elim
  · exact hw.elim

/-- What is written stays in front. -/
theorem written_prefix_of_move (hmove : Move clock (s, r) (t, r')) :
    s.outbox.written <+: t.outbox.written := by
  cases hmove with
  | write s r f n outbox hw hcur hpush =>
    obtain ⟨hlog, -, -, -⟩ := push_complete _ _ f n hpush
    exact ⟨[f], by simp [Outbox.written, hlog]⟩
  | writePart s r f n outbox hw hcur hpush =>
    obtain ⟨m, -, rfl, -⟩ := push_part _ _ f n hpush
    exact List.prefix_refl _
  | _ => exact List.prefix_refl _

/-- It does not matter whether the peer vanishes. -/
theorem holding_drop (h : Holding before call body request status s) :
    Holding before call body request status s.drop := by
  have hphase : s.drop.phase = s.phase := rfl
  unfold Holding at h ⊢
  rw [hphase]
  split at h
  · exact h
  · exact h
  · exact h
  · exact ⟨h.1, rfl⟩
  · exact h.elim

/-- Every move that does not find the call cancelled holds it back, or has written its trailers. -/
theorem holding_step (hmethod : call.method = .block)
    (hr : decodeRequest BlockRequest.decoder body = .ok request)
    (herror : request.error = some status) (hstatus : status.code ≠ .ok)
    (hmove : Move clock (s, r) (t, r'))
    (hcalm : t.outbox.written = before → ∀ call work, t.phase ≠ .work call work .cancelled)
    (h : Holding before call body request status s) :
    Holding before call body request status t ∨
      t.outbox.written = before ++ [.trailers status .empty] := by
  have hwritten := written_of_holding h
  have hfail : finish ((Service.blockOutcome call.metadata request).map some) =
      .close [.trailers status .empty] := by
    rw [Service.blockOutcome_failure herror hstatus]
    rfl
  cases hmove with
  | fetch s r n hreads hp ha hn => exact Or.inl h
  | read s r n k got inbox hk hpoll =>
    unfold State.reads? at hk
    unfold Holding at h
    split at hk <;> simp_all
  | takeUp s r path metadata hp hq => simp [Holding, hp] at h
  -- a watcher may read on behind the call, as long as that does not cancel it
  | watch s r n call' work got inbox hp hpoll =>
    have hno := hcalm hwritten call' work
    left
    cases work with
    | request body' =>
      simp only [Holding, hp] at h ⊢
      exact ⟨h.1, h.2.1, fun heq => hno (by rw [heq]), h.2.2.2⟩
    | delay deadline request' =>
      simp only [Holding, hp] at h ⊢
      exact ⟨h.1, h.2.1, fun heq => hno (by rw [heq]), h.2.2.2⟩
    | stream x => simp [Holding, hp] at h
  | answer s r call' body' watch o r' hp hs =>
    simp only [Holding, hp] at h
    obtain ⟨rfl, rfl, -, hcur, -⟩ := h
    have hdone := congrArg Prod.fst hs
    simp only [hmethod, Service.start, hr] at hdone
    split at hdone
    · obtain rfl := Service.Answer.done.inj hdone
      left
      rw [hfail]
      exact ⟨by simp [State.sent, hcur, hwritten], hwritten⟩
    · cases hdone
  | delay s r call' body' watch n request' r' hp hs =>
    simp only [Holding, hp] at h
    obtain ⟨rfl, rfl, hwatch, hcur, -⟩ := h
    have hdelayed := congrArg Prod.fst hs
    simp only [hmethod, Service.start, hr] at hdelayed
    split at hdelayed
    · cases hdelayed
    · obtain ⟨-, rfl⟩ := Service.Answer.delayed.inj hdelayed
      exact Or.inl ⟨rfl, rfl, hwatch, hcur, hwritten⟩
  | cancel s r call' deadline request' hp => simp [Holding, hp] at h
  | expire s r call' deadline request' watch hp hd =>
    simp only [Holding, hp] at h
    obtain ⟨rfl, rfl, -, hcur, -⟩ := h
    left
    rw [hfail]
    exact ⟨by simp [State.sent, hcur, hwritten], hwritten⟩
  | writePart s r f n outbox hw hcur hpush =>
    obtain ⟨m, -, rfl, -⟩ := push_part _ _ f n hpush
    obtain ⟨frames, hp, hsent⟩ := close_of_holding hw h
    left
    simp only [Holding, hp]
    exact ⟨by simpa [State.sent, Outbox.written, hcur] using hsent, hwritten⟩
  | write s r f n outbox hw hcur hpush =>
    obtain ⟨hlog, -, -, -⟩ := push_complete _ _ f n hpush
    obtain ⟨frames, -, hsent⟩ := close_of_holding hw h
    -- nothing else can be under way, as nothing else is to be sent
    obtain ⟨rfl, rfl⟩ : f = .trailers status .empty ∧ frames = [] := by
      simpa [State.sent, hcur, hwritten] using hsent
    right
    simpa [Outbox.written, hlog] using hwritten
  | failLast s r frames f n hp hcur hpush =>
    exact Or.inl ⟨hwritten, push_failed _ f n hpush⟩
  | beginLast s r f rest hp hcur =>
    simp only [Holding, hp] at h
    left
    exact ⟨by simpa [State.sent, hcur, Outbox.begin, Outbox.written] using h.1, h.2⟩
  | endLast s r hp hcur =>
    simp only [Holding, hp] at h
    obtain ⟨hsent, -⟩ := h
    simp [State.sent, hcur, hwritten] at hsent
  | _ => simp_all [Holding]

/-- In a run that does not cancel the call, the next frame is its trailers frame. -/
theorem holding_run {a b : State × Registry} (hmethod : call.method = .block)
    (hr : decodeRequest BlockRequest.decoder body = .ok request)
    (herror : request.error = some status) (hstatus : status.code ≠ .ok)
    (h : Holding a.1.outbox.written call body request status a.1) (hrun : Uncancelled a b) :
    Holding a.1.outbox.written call body request status b.1 ∨
      ∃ rest, b.1.outbox.written = a.1.outbox.written ++ .trailers status .empty :: rest := by
  induction hrun with
  | start => exact Or.inl h
  | step s r t r' clock _ hstep hcalm ih =>
    have hmove := hstep.move
    rcases ih with hs | ⟨rest, hs⟩
    · have ht := holding_step hmethod hr herror hstatus hmove hcalm hs
      exact ht.imp_right fun ht => ⟨[], ht⟩
    · obtain ⟨more, hmore⟩ := written_prefix_of_move hmove
      exact Or.inr ⟨rest ++ more, by rw [← hmore, hs]; simp⟩
  | receive s r bytes _ hopen ih => exact ih
  | close s r _ ih => exact ih
  | drop s r _ ih =>
    exact ih.imp_left holding_drop
  | share s r r' _ ih => exact ih

end

/-- A call of `Block` that carries a failure and is not cancelled has nothing written for it but its
trailers frame with that failure, which is there at rest. -/
theorem uncancelled_block {capacity : Nat} {reads : Bool} {registry : Registry} {h : History}
    {a b : State × Registry} {call : Call} {body : Json} {watch : Watch} {request : BlockRequest}
    {status : Status} (hrun : Run (State.init capacity reads, registry) h a)
    (hp : a.1.phase = .work call (.request body) watch) (hwatch : watch ≠ .cancelled)
    (hmethod : call.method = .block)
    (hr : decodeRequest BlockRequest.decoder body = .ok request)
    (herror : request.error = some status) (hstatus : status.code ≠ .ok)
    (hmore : Uncancelled a b) :
    (b.1.outbox.written = a.1.outbox.written ∨
      ∃ rest, b.1.outbox.written = a.1.outbox.written ++ .trailers status .empty :: rest) ∧
    (reads = true → b.1.outbox.gone = false → Settled b.1 →
      ∃ rest, b.1.outbox.written = a.1.outbox.written ++ .trailers status .empty :: rest) := by
  have hcur : a.1.outbox.current = none := by
    obtain ⟨accounts, hrecorded⟩ := exists_recorded hrun
    obtain ⟨taken, -, hstage⟩ := accounted_run hrecorded
    obtain ⟨-, -, c, ⟨-, hcur, -⟩, -⟩ := (stage_request_iff hp).mp hstage
    exact hcur
  have hstart : Holding a.1.outbox.written call body request status a.1 := by
    simp only [Holding, hp]
    exact ⟨trivial, trivial, hwatch, hcur, trivial⟩
  have hholding := holding_run hmethod hr herror hstatus hstart hmore
  refine ⟨hholding.imp_left written_of_holding, fun hreads hgone hsettled => ?_⟩
  subst hreads
  refine hholding.resolve_left fun hb => ?_
  obtain ⟨h', hwhole⟩ := hmore.run hrun
  obtain ⟨hroom, hcap⟩ := room_of_run capacity registry h' b hwhole
  unfold Holding at hb
  rcases atRest_of_settled b.1 hsettled hgone hroom hcap with hfinished | ⟨hreads, -⟩
  · unfold State.isFinished at hfinished
    split at hfinished
    · rename_i hp
      rw [hp] at hb
      cases hb.2.symm.trans hgone
    · cases hfinished
  · unfold State.reads? at hreads
    split at hb <;> simp_all

end EchoServer.Connection
