import EchoServer.Proofs.Connection.BlockCourse

namespace EchoServer.Connection

open Wire (Front Inbox Received)

/-- A call is under way, and none of its last frames is due. -/
def State.Working (s : State) : Prop := ∃ call work watch, s.phase = .work call work watch

namespace BlockCall

section
variable {b : BlockCall} {time latest : Nat} {s t : State} {r r' : Registry}
  {start a : State × Registry} {h : History} {got : Received ClientFrame}
  {seen : List (Nat × Received ClientFrame)}

/-- How far a run has come. A call that was taken up behind this one was noticed, unless this one
was cancelled before; and it leaves alone what is written for this one. -/
structure Followed (b : BlockCall) (start : State) (time latest : Nat)
    (seen : List (Nat × Received ClientFrame)) (h : History) (s : State) : Prop where
  course : h.calls = [] → b.Course start.outbox.written time latest (notice seen) s
  met : h.calls = [] → Front ClientFrame.decoder (start.inbox.bytes ++ h.received)
    (framesOf seen) s.inbox.bytes
  taken : ∀ call, h.calls.head? = some call →
    notice seen = .next call ∨ ∃ t, notice seen = .cancelled t
  past : h.calls ≠ [] → ∃ all, b.Ended time latest s.inbox (notice seen) all ∧
    start.outbox.written ++ all <+: s.outbox.written

theorem calls_of_step {clock : Clock} (hcalls : (h.step clock r s t).calls = []) :
    h.calls = [] ∧ s.nextCall? = none := by
  obtain ⟨hbefore, hnext⟩ := List.append_eq_nil_iff.mp hcalls
  exact ⟨hbefore, Option.toList_eq_nil_iff.mp hnext⟩

/-- The first call that is taken up was noticed, if the running one was not cancelled before; or it
is met now. -/
theorem Followed.taken_step {clock : Clock} {start : State} {call : String × Metadata}
    (hf : b.Followed start time latest seen h s) (hmove : Move clock (s, r) (t, r'))
    (hhead : (h.step clock r s t).calls.head? = some call) :
    (notice seen = .next call ∨ ∃ t, notice seen = .cancelled t) ∨
      notice seen = .nothing ∧ s.nextCall? = some call ∧ ∃ got, Meets s got t := by
  cases hcalls : h.calls with
  | cons first rest =>
    left
    exact hf.taken call (by simpa [History.step, hcalls] using hhead)
  -- no call was taken up before, so this one is taken up now
  | nil =>
    have hnext : s.nextCall? = some call := by
      simpa [History.step, hcalls, Option.head?_toList] using hhead
    have hqueued := (hf.course hcalls).1
    cases hn : notice seen with
    | cancelled time => exact Or.inl (Or.inr ⟨time, rfl⟩)
    | nothing =>
      rcases queued_or_meets hmove hnext with hq | ⟨-, got, hgot, -⟩
      · rw [hn, hq] at hqueued
        cases hqueued
      · exact Or.inr ⟨rfl, hnext, got, hgot⟩
    | next other =>
      rw [hn] at hqueued
      rcases queued_or_meets hmove hnext with hq | ⟨hq, -⟩
      · obtain rfl : call = other := Option.some.inj (hq.symm.trans hqueued)
        exact Or.inl (Or.inl rfl)
      · cases hq.symm.trans hqueued

/-- A call is taken up only where the main loop is idle, and then all of this one is written. -/
theorem Followed.past_step {now : Time.Timestamp} {start : State}
    (hf : b.Followed start time latest seen h s) (hmove : Move ⟨time, now⟩ (s, r) (t, r'))
    (hcalls : (h.step ⟨time, now⟩ r s t).calls ≠ []) :
    ∃ all, b.Ended time latest s.inbox (notice seen) all ∧
      start.outbox.written ++ all <+: t.outbox.written := by
  have hwritten := written_prefix_of_move hmove
  by_cases hbefore : h.calls = []
  -- the other call is taken up in this move
  · have hidle : s.phase = .idle := by
      by_contra hbusy
      exact hcalls (by simp [History.step, hbefore, nextCall?_of_busy hbusy])
    have hcourse := (hf.course hbefore).2
    simp only [hidle] at hcourse
    obtain ⟨-, all, hended, hall⟩ := hcourse
    exact ⟨all, hended, hall ▸ hwritten⟩
  · obtain ⟨all, hended, hall⟩ := hf.past hbefore
    exact ⟨all, hended, hall.trans hwritten⟩

/-- Something is met, behind the running call or where there is none. -/
theorem followed_meet {now : Time.Timestamp} {start : State}
    (hmove : Move ⟨time, now⟩ (s, r) (t, r')) (hgot : Meets s got t)
    (hf : b.Followed start time latest seen h s) :
    b.Followed start time latest (seen ++ [(latest, got)]) (h.step ⟨time, now⟩ r s t) t := by
  have hdry : ¬ Dry s.inbox := by
    obtain ⟨⟨k, inbox, hpoll⟩, -⟩ := hgot.gets
    exact not_dry_of_poll hpoll
  have hfront : Front ClientFrame.decoder s.inbox.bytes got.frame?.toList t.inbox.bytes := by
    cases hgot with
    | idle k inbox hp hq hpoll => exact .of_poll hpoll
    | watch k call work inbox hp hpoll => exact .of_poll hpoll
  refine ⟨fun hcalls => ?_, fun hcalls => ?_, fun call hcall => ?_, fun hcalls => ?_⟩
  · obtain ⟨hcalls, hnext⟩ := calls_of_step hcalls
    exact course_meet hgot hnext (hf.course hcalls)
  · obtain ⟨hcalls, -⟩ := calls_of_step hcalls
    rw [framesOf_snoc]
    exact (hf.met hcalls).trans hfront
  · rcases hf.taken_step hmove hcall with hfound | ⟨hnothing, hnext, -⟩
    · rw [notice_snoc_of_found (fun hn => by simp [hn] at hfound)]
      exact hfound
    · rw [notice_snoc_of_nothing hnothing]
      exact Or.inl (notice_of_nextCall? latest hgot hnext)
  · obtain ⟨all, hended, hall⟩ := hf.past_step hmove hcalls
    exact ⟨all, hended.meet hdry got, hall⟩

/-- Nothing is met. -/
theorem followed_step {now : Time.Timestamp} {start : State}
    (hmove : Move ⟨time, now⟩ (s, r) (t, r')) (hmeets : ∀ got, ¬ Meets s got t)
    (hf : b.Followed start time latest seen h s) :
    b.Followed start time latest seen (h.step ⟨time, now⟩ r s t) t := by
  have htaken : ∀ call, (h.step ⟨time, now⟩ r s t).calls.head? = some call →
      notice seen = .next call ∨ ∃ t, notice seen = .cancelled t := by
    intro call hcall
    rcases hf.taken_step hmove hcall with hfound | ⟨-, -, got, hgot⟩
    · exact hfound
    · exact absurd hgot (hmeets got)
  refine ⟨fun hcalls => ?_, fun hcalls => ?_, htaken, fun hcalls => ?_⟩
  · obtain ⟨hcalls, hnext⟩ := calls_of_step hcalls
    exact course_step hmove hmeets hnext (hf.course hcalls)
  · obtain ⟨hcalls, -⟩ := calls_of_step hcalls
    have hears (got : Received ClientFrame) : ¬ Hears s got t :=
      not_hears_of_course (hf.course hcalls)
    rw [(attends_of_move _ s t r r' hmove hears hmeets).1]
    exact hf.met hcalls
  · obtain ⟨all, hended, hall⟩ := hf.past_step hmove hcalls
    obtain ⟨call, rest, hcons⟩ := List.exists_cons_of_ne_nil hcalls
    refine ⟨all, hended.found fun hnothing => ?_, hall⟩
    simpa [hnothing] using htaken call (by rw [hcons]; rfl)

/-- All along a run the call takes its course, until another one is taken up. -/
theorem followed_run (hrun : Watched start b.begun time latest seen h a)
    (hstart : b.Course start.1.outbox.written b.begun b.begun .nothing start.1) :
    b.Followed start.1 time latest seen h a.1 := by
  induction hrun with
  | start =>
    refine ⟨fun _ => hstart, fun _ => ?_, fun call hcall => (by cases hcall), absurd rfl⟩
    show Front ClientFrame.decoder (start.1.inbox.bytes ++ []) [] start.1.inbox.bytes
    rw [List.append_nil]
    exact .nil _
  | meet time latest seen h s r t r' now got _ hstep hgot ih =>
    exact followed_meet hstep.move hgot ih
  | step time latest seen h s r t r' now _ hstep hmeets ih =>
    exact followed_step hstep.move hmeets ih
  | pass time latest seen k h s r _ hstill hdue ih =>
    refine ⟨fun hcalls => ?_, ih.met, ih.taken, fun hcalls => ?_⟩
    · exact course_pass (hstill epoch) hdue (ih.course hcalls)
    · obtain ⟨all, hended, hall⟩ := ih.past hcalls
      exact ⟨all, hended.later (Nat.le_add_right _ _), hall⟩
  | receive time latest seen h s r bytes _ hopen ih =>
    refine ⟨fun hcalls => ?_, fun hcalls => ?_, ih.taken, fun hcalls => ?_⟩
    · exact course_news (Or.inl rfl) _ _ id (ih.course hcalls)
    · have hbytes : (s.receive bytes).inbox.bytes = s.inbox.bytes ++ bytes :=
        Inbox.bytes_receive _ _
      rw [hbytes, ← List.append_assoc]
      exact (ih.met hcalls).append bytes
    · obtain ⟨all, hended, hall⟩ := ih.past hcalls
      exact ⟨all, hended.news (Or.inl rfl), hall⟩
  | close time latest seen h s r _ ih =>
    refine ⟨fun hcalls => ?_, ih.met, ih.taken, fun hcalls => ?_⟩
    · exact course_news (Or.inl rfl) _ _ id (ih.course hcalls)
    · obtain ⟨all, hended, hall⟩ := ih.past hcalls
      exact ⟨all, hended.news (Or.inl rfl), hall⟩
  | drop time latest seen h s r _ ih =>
    refine ⟨fun hcalls => ?_, ih.met, ih.taken, fun hcalls => ?_⟩
    · exact course_news (Or.inl rfl) _ true (fun hgone => by cases hgone) (ih.course hcalls)
    · obtain ⟨all, hended, hall⟩ := ih.past hcalls
      exact ⟨all, hended.news (Or.inl rfl), hall⟩
  | share time latest seen h s r r' _ ih => exact ih

end

/-- With `all` the call ends as it has to, if this is what was noticed: it is cancelled if that was
before the end of the delay, and its delay has run off if nobody cancelled it by then. -/
structure EndsWith (b : BlockCall) (time : Nat) (n : Notice) (all : List ServerFrame) : Prop where
  cancelled : ∀ t, n = .cancelled t → t < b.due →
    t ≤ time ∧ all = [.trailers Service.cancelledInDelay .empty]
  due : (∀ t, n = .cancelled t → b.due < t ∨ b.request.responseDelay.toDelay = 0) →
    b.due ≤ time ∧ all = b.response
  /-- Where both come at the same time, it is one of them. -/
  either : all = [.trailers Service.cancelledInDelay .empty] ∨ all = b.response

/-- How the call stands at this time, as long as no other one was taken up. -/
structure Stands (b : BlockCall) (start : State) (reads : Bool) (time : Nat)
    (seen : List (Nat × Received ClientFrame)) (h : History) (a : State × Registry) : Prop where
  /-- The frames that were noticed are the next ones of the stream. -/
  met : Front ClientFrame.decoder (start.inbox.bytes ++ h.received) (framesOf seen) a.1.inbox.bytes
  queued : a.1.queued = (notice seen).call?
  /-- While the call runs, nothing is written for it, and it is neither late nor was cancelled at an
  earlier time. -/
  running : a.1.Working → a.1.sent = start.outbox.written ∧ time ≤ b.due ∧
    ∀ t, notice seen = .cancelled t → t = time
  /-- Nobody waits but for the end of the delay and for what is still to come in. -/
  held : a.1.Working → ∀ now, Still ⟨time, now⟩ a → time < b.due ∧
    (∀ t, notice seen ≠ .cancelled t) ∧ (notice seen = .nothing → Dry a.1.inbox)
  /-- Once the call has ended, its last frames are on their way. -/
  ended : ¬ a.1.Working → ∃ all, b.EndsWith time (notice seen) all ∧
    a.1.sent <+: start.outbox.written ++ all ∧
    (a.1.outbox.gone = false → a.1.BetweenCalls → a.1.outbox.written = start.outbox.written ++ all)
  /-- All that is due is written, and a call that was put aside is taken up. -/
  settled : reads = true → a.1.outbox.gone = false → ∀ now, Still ⟨time, now⟩ a →
    a.1.Working ∨ a.1.BetweenCalls ∧ a.1.queued = none

section
variable {b : BlockCall} {base : List ServerFrame} {time latest : Nat} {n : Notice} {s : State}
  {r : Registry} {watch : Watch} {inbox : Inbox} {all : List ServerFrame}
  {seen : List (Nat × Received ClientFrame)} {now : Time.Timestamp}

theorem Ended.endsWith (h : b.Ended time latest inbox n all) : b.EndsWith time n all := by
  constructor
  · rintro t rfl hlt
    cases h with
    | cut t hdelay ht hdue => exact ⟨ht, rfl⟩
    | due n hdue hlate hopen => exact absurd (hlate t rfl) (Nat.not_le.mpr hlt)
  · intro hlate
    cases h with
    | cut t hdelay ht hdue =>
      rcases hlate t rfl with hlt | hzero
      · exact absurd hdue (Nat.not_le.mpr hlt)
      · exact absurd hzero hdelay
    | due n hdue _ hopen => exact ⟨hdue, rfl⟩
  · cases h with
    | cut t hdelay ht hdue => exact Or.inl rfl
    | due n hdue hlate hopen => exact Or.inr rfl

/-- A call that is under way has come to nothing yet. -/
theorem Course.running (hworks : s.Working) (h : b.Course base time latest n s) :
    s.sent = base ∧ time ≤ b.due ∧ ∀ t, n = .cancelled t → t = time := by
  have hawaits {watch : Watch} {t : Nat} (h : Awaits time latest s.inbox n watch)
      (hn : n = .cancelled t) : t = time := by
    subst hn
    cases h with
    | cancelled => rfl
  obtain ⟨call, work, watch, hp⟩ := hworks
  have h := h.2
  simp only [hp] at h
  cases work with
  | request body =>
    obtain ⟨-, -, htime, hcur, hwritten, hwatch⟩ := h
    have hdue : time ≤ b.due := by rw [htime]; exact Nat.le_add_right _ _
    exact ⟨by simp [State.sent, hcur, hwritten], hdue, fun t => hawaits hwatch⟩
  | delay deadline request =>
    obtain ⟨-, -, rfl, -, htime, hcur, hwritten, hwatch⟩ := h
    exact ⟨by simp [State.sent, hcur, hwritten], htime, fun t => hawaits hwatch⟩
  | stream x => exact h.elim

/-- Where nobody can move, the watcher has nothing to read. -/
theorem Course.held (hworks : s.Working) (hstill : Still ⟨time, now⟩ (s, r))
    (h : b.Course base time latest n s) :
    time < b.due ∧ (∀ t, n ≠ .cancelled t) ∧ (n = .nothing → Dry s.inbox) := by
  obtain ⟨call, work, watch, hp⟩ := hworks
  have h := h.2
  simp only [hp] at h
  cases work with
  | request body =>
    obtain ⟨a, hstep⟩ := exists_step_of_request hp
    exact absurd hstep (hstill a)
  | delay deadline request =>
    obtain ⟨-, -, rfl, -, -, -, -, hwatch⟩ := h
    obtain ⟨hdue, hcancelled, hdry⟩ := (still_delay_iff hp).mp hstill
    cases hwatch with
    | on hread => exact ⟨hdue, fun t => Notice.noConfusion, fun _ => hdry rfl⟩
    | cancelled => exact absurd rfl hcancelled
    | off call => exact ⟨hdue, fun t => Notice.noConfusion, Notice.noConfusion⟩
  | stream x => exact h.elim

/-- A call that is not under way any more has its last frames. -/
theorem Course.ended (hworks : ¬ s.Working) (h : b.Course base time latest n s) :
    ∃ all, b.EndsWith time n all ∧ s.sent <+: base ++ all ∧
      (s.outbox.gone = false → s.BetweenCalls → s.outbox.written = base ++ all) := by
  have h := h.2
  split at h
  · rename_i call body watch hp
    exact absurd ⟨call, _, watch, hp⟩ hworks
  · rename_i call deadline request watch hp
    exact absurd ⟨call, _, watch, hp⟩ hworks
  · rename_i frames hp
    obtain ⟨all, hended, hsent⟩ := h
    refine ⟨all, hended.endsWith, ⟨frames, hsent⟩, fun _ hbetween => ?_⟩
    rcases hbetween with hidle | ⟨failure, hover⟩
    · cases hp.symm.trans hidle
    · cases hp.symm.trans hover
  · obtain ⟨hcur, all, hended, hwritten⟩ := h
    have hsent : s.sent = base ++ all := by simp [State.sent, hcur, hwritten]
    exact ⟨all, hended.endsWith, by rw [hsent], fun _ _ => hwritten⟩
  · obtain ⟨all, hended, hsent, hwritten⟩ := h
    exact ⟨all, hended.endsWith, hsent, fun hthere _ => (hwritten hthere).2⟩
  · exact h.elim

/-- A call of `Block` has no stream. -/
theorem Course.whole (h : b.Course base time latest n s) : s.isBroken = false := by
  have h := h.2
  split at h
  · rename_i hp
    exact whole_of_phase hp rfl
  · rename_i hp
    exact whole_of_phase hp rfl
  · rename_i hp
    exact whole_of_phase hp rfl
  · rename_i hp
    exact whole_of_phase hp rfl
  · rename_i hp
    exact whole_of_phase hp rfl
  · exact h.elim

/-- Where nobody can move, the call is held back or all of it is written. -/
theorem Course.settled (hstill : Still ⟨time, now⟩ (s, r)) (hgone : s.outbox.gone = false)
    (hroom : s.outbox.room = none) (hcap : 0 < s.capacity) (h : b.Course base time latest n s) :
    s.Working ∨ s.BetweenCalls ∧ s.queued = none := by
  have hquiet : Quiet ⟨time, now⟩ (s, r) := ⟨h.whole, hstill⟩
  have h := h.2
  rcases atRest_or_holdsBack hquiet hgone hroom hcap with (hover | ⟨hreads, -⟩) | hheld
  · right
    unfold State.isFinished at hover
    split at hover
    · rename_i failure hp
      simp only [hp] at h
      obtain ⟨all, -, -, hwritten⟩ := h
      exact ⟨Or.inr ⟨failure, hp⟩, (hwritten hgone).1⟩
    · cases hover
  · right
    unfold State.reads? at hreads
    split at h <;> simp_all [State.BetweenCalls]
  · left
    obtain ⟨call, deadline, request, watch, hp, -⟩ := hheld
    exact ⟨call, _, watch, hp⟩

end
end BlockCall

/-- `Block` ends at the time at which its peer cancels it, or when its delay has run off, whichever
comes first, with what is due then. The call frame that was noticed is what is served next. -/
theorem block_ends_when_cancelled_or_due {capacity : Nat} {reads : Bool} {registry : Registry}
    {before : History} {s : State} {r : Registry} (b : BlockCall)
    (hrun : Run (State.init capacity reads, registry) before (s, r))
    (hp : s.phase = .work b.call (.request b.body) .on) :
    (∀ time h a, Paced (s, r) b.begun time h a →
      ∃ latest seen, Watched (s, r) b.begun time latest seen h a) ∧
    (WellFounded fun t s => Next s t) ∧
    Service.cancelledInDelay.code = .cancelled ∧
    ∀ time latest seen h a, Watched (s, r) b.begun time latest seen h a →
      (h.calls = [] → b.Stands s reads time seen h a) ∧
      ∀ call rest, h.calls = call :: rest →
        (∀ next, notice seen = .next next → call = next) ∧
        ∃ all, b.EndsWith time (notice seen) all ∧
          s.outbox.written ++ all <+: a.1.outbox.written := by
  obtain ⟨accounts, hrecorded⟩ := exists_recorded hrun
  obtain ⟨taken, -, hstage⟩ := accounted_run hrecorded
  obtain ⟨hq, -, c, ⟨-, hcur, -⟩, -⟩ := (stage_request_iff hp).mp hstage
  have hstart : b.Course s.outbox.written b.begun b.begun .nothing s := by
    refine ⟨hq rfl, ?_⟩
    simp only [hp]
    exact ⟨trivial, trivial, trivial, hcur, trivial, .on (Or.inr rfl)⟩
  refine ⟨fun time h a => exists_watched, next_wellFounded, rfl, ?_⟩
  intro time latest seen h a hmore
  have hfollowed := BlockCall.followed_run hmore hstart
  constructor
  · intro hcalls
    have hcourse := hfollowed.course hcalls
    refine ⟨hfollowed.met hcalls, hcourse.1, fun hworks => hcourse.running hworks,
      fun hworks now hstill => hcourse.held hworks hstill, fun hworks => hcourse.ended hworks, ?_⟩
    rintro rfl hgone now hstill
    obtain ⟨whole, hwhole⟩ := hrun.trans hmore.paced.run
    obtain ⟨hroom, hcap⟩ := room_of_run capacity registry whole a hwhole
    exact hcourse.settled hstill hgone hroom hcap
  · intro call rest hcalls
    constructor
    · intro next hnext
      rcases hfollowed.taken call (by rw [hcalls]; rfl) with hn | ⟨t, hn⟩
      · exact Notice.next.inj (hn.symm.trans hnext)
      · cases hn.symm.trans hnext
    · obtain ⟨all, hended, hwritten⟩ := hfollowed.past (by simp [hcalls])
      exact ⟨all, hended.endsWith, hwritten⟩

section
variable {start : State × Registry} {begun time latest : Nat}
  {seen : List (Nat × Received ClientFrame)} {h : History} {s t : State} {r r' : Registry}

/-- Nobody meets anything before there is a frame in the buffer. -/
theorem watched_step (hrun : Watched start begun time latest seen h (s, r))
    (hmove : Move ⟨time, epoch⟩ (s, r) (t, r')) (hwhole : s.isBroken = false)
    (hp : Wire.parse ClientFrame.decoder s.inbox.buffer = .ok .incomplete)
    (hopen : s.inbox.closed = false) (hbusy : s.phase ≠ .idle) :
    ∃ h', h'.calls = h.calls ∧ Watched start begun time latest seen h' (t, r') := by
  refine ⟨_, ?_, .step _ _ _ _ _ _ _ _ epoch hrun (hmove.step hwhole) ?_⟩
  · simp [History.step, nextCall?_of_busy hbusy]
  · intro got hgot
    obtain ⟨⟨n, inbox, hpoll⟩, -⟩ := hgot.gets
    by_cases harrived : s.inbox.arrived = []
    · exact not_dry_of_poll hpoll ⟨hp, harrived, hopen⟩
    · cases hpoll.symm.trans ((Wire.poll_eq_more_iff _ _ _ _).mpr ⟨hp, harrived, rfl⟩)

/-- The last frame of a call is written. -/
theorem watched_last {status : Status}
    (hrun : Watched start begun time latest seen h
      (reading [] (.close [.trailers status .empty]), r)) :
    ∃ h', h'.calls = h.calls ∧
      Watched start begun time latest seen h' (failed status .idle, r) := by
  obtain ⟨h₁, hcalls₁, hbegun⟩ := watched_step hrun
    (.beginLast _ _ (.trailers status .empty) [] rfl rfl) rfl rfl rfl Phase.noConfusion
  obtain ⟨h₂, hcalls₂, hwritten⟩ := watched_step hbegun
    (.write _ _ (.trailers status .empty) _ _ trivial rfl rfl) rfl rfl rfl Phase.noConfusion
  obtain ⟨h₃, hcalls₃, hended⟩ :=
    watched_step hwritten (.endLast _ _ rfl rfl) rfl rfl rfl Phase.noConfusion
  exact ⟨h₃, hcalls₃.trans (hcalls₂.trans hcalls₁), hended⟩

end

/-- The call that asks for a refusal after a second. -/
def refused : BlockCall where
  call := ⟨.block, .empty⟩
  body := denied.reread.canonical
  request := ⟨⟨1, 0⟩, some denial, none⟩
  begun := 0
  method := rfl
  decoded := rfl

/-- The connection that holds the answer to `refused` back. -/
def refusing (inbox : Inbox) (watch : Watch) : State :=
  { reading [] (.work refused.call (.delay refused.due refused.request) watch) with inbox }

/-- Nothing comes in, and time passes. -/
theorem exists_refusing (time : Nat) (hdue : time ≤ refused.due) :
    ∃ h, h.calls = [] ∧ Watched (asking .block refused.body, .empty) 0 time 0 [] h
      (refusing ⟨[], [], false⟩ .on, .empty) := by
  have hdelay : Move ⟨0, epoch⟩ (asking .block refused.body, .empty)
      (refusing ⟨[], [], false⟩ .on, .empty) :=
    .delay _ _ _ refused.body .on refused.request.responseDelay.toDelay refused.request _ rfl rfl
  obtain ⟨h, hcalls, hheld⟩ := watched_step .start hdelay rfl rfl rfl Phase.noConfusion
  have hstill (now : Time.Timestamp) :
      Still ⟨0, now⟩ (refusing ⟨[], [], false⟩ .on, .empty) := by
    have hpos : 0 < refused.due := by decide
    exact (still_delay_iff rfl).mpr ⟨hpos, by decide, fun _ => ⟨rfl, rfl, rfl⟩⟩
  have hpassed := Watched.pass _ _ _ time _ _ _ hheld hstill fun d hd => by
    obtain rfl : refused.due = d := Option.some.inj hd
    rwa [Nat.zero_add]
  rw [Nat.zero_add] at hpassed
  exact ⟨h, hcalls, hpassed⟩

/-- The peer cancels the call, and its watcher notices. -/
theorem exists_cancelling (time : Nat) (hdue : time ≤ refused.due) :
    ∃ h, h.calls = [] ∧ Watched (asking .block refused.body, .empty) 0 time time
      [(time, .frame .cancel)] h (refusing ⟨[], [], false⟩ .cancelled, .empty) := by
  obtain ⟨h₁, hcalls₁, hheld⟩ := exists_refusing time hdue
  have hpoll := poll_sent .cancel [] (by decide) (by decide +kernel)
  generalize hbytes : Wire.encode ClientFrame.cancel.toJson ++ [] = bytes at hpoll
  have hne : bytes ≠ [] := by simp [← hbytes, Wire.encode_eq, Wire.lengthLine_ne_nil]
  have hsent := Watched.receive _ _ _ _ _ _ bytes hheld rfl
  have hfetch : Move ⟨time, epoch⟩ (refusing ⟨[], bytes, false⟩ .on, .empty)
      (refusing (Inbox.take ⟨[], bytes, false⟩ bytes.length) .on, .empty) :=
    .fetch _ _ bytes.length (Or.inr ⟨_, _, rfl⟩) rfl hne (List.length_pos_of_ne_nil hne)
  obtain ⟨h₂, hcalls₂, hfetched⟩ := watched_step hsent hfetch rfl rfl rfl Phase.noConfusion
  have htake : Inbox.take ⟨[], bytes, false⟩ bytes.length = ⟨bytes, [], false⟩ := by
    simp [Inbox.take]
  rw [htake] at hfetched
  have hwatch : Move ⟨time, epoch⟩ (refusing ⟨bytes, [], false⟩ .on, .empty)
      (refusing ⟨[], [], false⟩ .cancelled, .empty) :=
    .watch (refusing ⟨bytes, [], false⟩ .on) .empty 0 refused.call
      (.delay refused.due refused.request) (.frame .cancel) ⟨[], [], false⟩ rfl hpoll
  refine ⟨_, ?_, .meet _ _ _ _ _ _ _ _ epoch _ hfetched (hwatch.step rfl)
    (.watch 0 refused.call _ ⟨[], [], false⟩ rfl hpoll)⟩
  have hbusy : (refusing ⟨bytes, [], false⟩ .on).nextCall? = none := rfl
  simp [History.step, hbusy, hcalls₂, hcalls₁]

/-- Cancelled after half a second, such a call ends then; left alone it ends after the second. -/
theorem block_ends_when_cancelled_or_due_refused :
    ∃ before, Run (State.init 16 true, .empty) before (asking .block refused.body, .empty) ∧
      (asking .block refused.body).phase = .work refused.call (.request refused.body) .on ∧
      (∃ latest seen h a, Watched (asking .block refused.body, .empty) 0 500000000 latest seen h a ∧
        notice seen = .cancelled 500000000 ∧
        a.1.outbox.written = [.trailers Service.cancelledInDelay .empty]) ∧
      ∃ latest h a, Watched (asking .block refused.body, .empty) 0 1000000000 latest [] h a ∧
        a.1.outbox.written = [.trailers denial .empty] := by
  have hblock : Method.ofPath? "Block" = some .block := by decide +kernel
  have hfits : CallGroup.Fits ⟨"Block", .empty, [denied], false⟩ := by
    unfold CallGroup.Fits
    decide +kernel
  obtain ⟨place, before, hasked⟩ := exists_asking ⟨0, epoch⟩ .empty hblock rfl (by decide) hfits
  have hrun : Run (State.init 16 true, .empty) before (asking .block refused.body, .empty) :=
    hasked.run
  obtain ⟨-, -, -, hstands⟩ := block_ends_when_cancelled_or_due refused hrun rfl
  have hidle (status : Status) : ¬ (failed status .idle).Working := by
    rintro ⟨call, work, watch, hp⟩
    cases hp
  refine ⟨before, hrun, rfl, ?_, ?_⟩
  · obtain ⟨h₁, hcalls₁, hnoticed⟩ := exists_cancelling 500000000 (by decide)
    obtain ⟨h₂, hcalls₂, hcut⟩ := watched_step hnoticed
      (.cancel _ _ refused.call refused.due refused.request rfl) rfl rfl rfl Phase.noConfusion
    obtain ⟨h₃, hcalls₃, hended⟩ := watched_last hcut
    obtain ⟨hstand, -⟩ := hstands _ _ _ _ _ hended
    obtain ⟨all, hends, -, hwritten⟩ :=
      (hstand (hcalls₃.trans (hcalls₂.trans hcalls₁))).ended (hidle _)
    refine ⟨_, _, _, _, hended, rfl, ?_⟩
    rw [hwritten rfl (Or.inl rfl), (hends.cancelled 500000000 rfl (by decide)).2]
    rfl
  · obtain ⟨h₁, hcalls₁, hheld⟩ := exists_refusing 1000000000 (by decide)
    obtain ⟨h₂, hcalls₂, hexpired⟩ := watched_step hheld
      (.expire _ _ refused.call refused.due refused.request .on rfl (by decide)) rfl rfl
      rfl Phase.noConfusion
    obtain ⟨h₃, hcalls₃, hended⟩ := watched_last hexpired
    obtain ⟨hstand, -⟩ := hstands _ _ _ _ _ hended
    obtain ⟨all, hends, -, hwritten⟩ :=
      (hstand (hcalls₃.trans (hcalls₂.trans hcalls₁))).ended (hidle _)
    refine ⟨_, _, _, hended, ?_⟩
    rw [hwritten rfl (Or.inl rfl), (hends.due fun t => Notice.noConfusion).2]
    rfl

end EchoServer.Connection
