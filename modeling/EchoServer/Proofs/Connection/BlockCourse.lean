import EchoServer.Proofs.Connection.Injected
import EchoServer.Proofs.Connection.Standstill
import EchoServer.Proofs.Connection.Watching
import EchoServer.Proofs.Service.Intake

/-! `Course` says how far a call of `Block` is, on a clock that waits for the server. What is still
unread has only just come, so nothing is noticed too late. -/
namespace EchoServer.Connection

open Service (decodeRequest)
open Wire (Inbox Received)

/-- A call of `Block` as its handler gets it, and when it gets it. -/
structure BlockCall where
  call : Call
  body : Json
  request : BlockRequest
  begun : Nat
  method : call.method = .block
  decoded : decodeRequest BlockRequest.decoder body = .ok request

/-- What the watcher of a call that is held back has noticed, and what it is doing. News that it has
not read has only just come. -/
inductive Awaits (time latest : Nat) (inbox : Inbox) : Notice → Watch → Prop
  | on (hread : Dry inbox ∨ latest = time) : Awaits time latest inbox .nothing .on
  | cancelled : Awaits time latest inbox (.cancelled time) .cancelled
  | off (call) : Awaits time latest inbox (.next call) .off

namespace BlockCall

/-- When the delay has run off. -/
def due (b : BlockCall) : Nat := b.begun + b.request.responseDelay.toDelay

/-- The frames that are due when the delay has run off. -/
def response (b : BlockCall) : List ServerFrame :=
  match Status.failure? b.request.error with
  | some s => [.trailers s .empty]
  | none => [.message (Service.responseBody (b.request.success.getD .default).toJson),
      .trailers .ok (b.call.metadata.echoTrailers .empty)]

/-- The frames with which the call has ended. -/
inductive Ended (b : BlockCall) (time latest : Nat) (inbox : Inbox) :
    Notice → List ServerFrame → Prop
  /-- It was cancelled in time. -/
  | cut (t) (hdelay : b.request.responseDelay.toDelay ≠ 0) (ht : t ≤ time) (hdue : t ≤ b.due) :
      Ended b time latest inbox (.cancelled t) [.trailers Service.cancelledInDelay .empty]
  /-- Its delay has run off. If nothing was noticed by then, whatever comes is late. -/
  | due (n) (hdue : b.due ≤ time) (hlate : ∀ t, n = .cancelled t → b.due ≤ t)
      (hopen : n = .nothing → Dry inbox ∨ b.due ≤ latest) :
      Ended b time latest inbox n b.response

/-- The call is under way or has ended, and no other call was taken up. -/
def Course (b : BlockCall) (base : List ServerFrame) (time latest : Nat) (n : Notice)
    (s : State) : Prop :=
  s.queued = n.call? ∧
  match s.phase with
  -- the handler can always answer its request, so time has not passed
  | .work call (.request body) watch => call = b.call ∧ body = b.body ∧ time = b.begun ∧
      s.outbox.current = none ∧ s.outbox.written = base ∧ Awaits time latest s.inbox n watch
  | .work call (.delay deadline request) watch => call = b.call ∧ request = b.request ∧
      deadline = b.due ∧ request.responseDelay.toDelay ≠ 0 ∧ time ≤ deadline ∧
      s.outbox.current = none ∧ s.outbox.written = base ∧ Awaits time latest s.inbox n watch
  | .close frames => ∃ all, b.Ended time latest s.inbox n all ∧ s.sent ++ frames = base ++ all
  | .idle => s.outbox.current = none ∧ ∃ all, b.Ended time latest s.inbox n all ∧
      s.outbox.written = base ++ all
  -- the peer has vanished, or its stream has come to an end behind the call
  | .finished _ => ∃ all, b.Ended time latest s.inbox n all ∧ s.sent <+: base ++ all ∧
      (s.outbox.gone = false → s.queued = none ∧ s.outbox.written = base ++ all)
  | _ => False

section
variable {b : BlockCall} {base : List ServerFrame} {time latest latest' : Nat} {n : Notice}
  {s t : State} {r r' : Registry} {inbox inbox' : Inbox} {watch : Watch}
  {all : List ServerFrame} {got : Received ClientFrame} {seen : List (Nat × Received ClientFrame)}

theorem lastFrames_outcome (b : BlockCall) :
    lastFrames ((Service.blockOutcome b.call.metadata b.request).map some) = b.response := by
  unfold response
  rw [Service.blockOutcome, Service.block, Service.blockVerdict]
  cases hfailure : Status.failure? b.request.error with
  | none =>
    rw [Service.resolve_of_no_failure hfailure]
    rfl
  | some s =>
    rw [Service.resolve_of_failure hfailure]
    rfl

/-- The watcher has still to notice what has just come, or what it takes into its buffer. -/
theorem awaits_news (hnews : latest' = time ∨ latest' = latest ∧ ¬ Dry inbox)
    (h : Awaits time latest inbox n watch) : Awaits time latest' inbox' n watch := by
  cases h with
  | on hread =>
    apply Awaits.on
    right
    rcases hnews with hnow | ⟨rfl, hdry⟩
    · exact hnow
    · exact hread.resolve_left hdry
  | cancelled => exact .cancelled
  | off call => exact .off call

/-- What comes behind the end of a call is late. -/
theorem Ended.news (hnews : latest' = time ∨ latest' = latest ∧ ¬ Dry inbox)
    (h : b.Ended time latest inbox n all) : b.Ended time latest' inbox' n all := by
  cases h with
  | cut t hdelay ht hdue => exact .cut t hdelay ht hdue
  | due n hdue hlate hopen =>
    refine .due n hdue hlate fun hn => Or.inr ?_
    rcases hnews with rfl | ⟨rfl, hdry⟩
    · exact hdue
    · exact (hopen hn).resolve_left hdry

/-- Once something is noticed, it does not matter what else comes in. -/
theorem Ended.found (hfound : n ≠ .nothing) (h : b.Ended time latest inbox n all) :
    b.Ended time latest' inbox' n all := by
  cases h with
  | cut t hdelay ht hdue => exact .cut t hdelay ht hdue
  | due n hdue hlate hopen => exact .due n hdue hlate fun hn => absurd hn hfound

theorem Ended.later {time' : Nat} (hle : time ≤ time') (h : b.Ended time latest inbox n all) :
    b.Ended time' latest inbox n all := by
  cases h with
  | cut t hdelay ht hdue => exact .cut t hdelay (Nat.le_trans ht hle) hdue
  | due n hdue hlate hopen => exact .due n (Nat.le_trans hdue hle) hlate hopen

/-- Bytes come in or are taken into the buffer, or the peer vanishes. -/
theorem course_news (hnews : latest' = time ∨ latest' = latest ∧ ¬ Dry s.inbox) (inbox : Inbox)
    (gone : Bool) (hgone : gone = false → s.outbox.gone = false)
    (h : b.Course base time latest n s) :
    b.Course base time latest' n { s with inbox, outbox := { s.outbox with gone } } := by
  refine ⟨h.1, ?_⟩
  have h := h.2
  dsimp only
  split at h
  · obtain ⟨hcall, hbody, htime, hcur, hwritten, hawaits⟩ := h
    exact ⟨hcall, hbody, htime, hcur, hwritten, awaits_news hnews hawaits⟩
  · obtain ⟨hcall, hrequest, hdue, hdelay, htime, hcur, hwritten, hawaits⟩ := h
    exact ⟨hcall, hrequest, hdue, hdelay, htime, hcur, hwritten, awaits_news hnews hawaits⟩
  · obtain ⟨all, hended, hsent⟩ := h
    exact ⟨all, hended.news hnews, hsent⟩
  · obtain ⟨hcur, all, hended, hwritten⟩ := h
    exact ⟨hcur, all, hended.news hnews, hwritten⟩
  · obtain ⟨all, hended, hsent, hwritten⟩ := h
    exact ⟨all, hended.news hnews, hsent, fun hthere => hwritten (hgone hthere)⟩
  · exact h.elim

/-- Time passes while the call is held back, and up to the end of its delay at most. -/
theorem course_pass {k : Nat} {now : Time.Timestamp} (hstill : Still ⟨time, now⟩ (s, r))
    (hdue : ∀ d ∈ s.deadline?, time + k ≤ d) (h : b.Course base time latest n s) :
    b.Course base (time + k) latest n s := by
  have hle : time ≤ time + k := Nat.le_add_right _ _
  refine ⟨h.1, ?_⟩
  have h := h.2
  split at h
  · rename_i call body watch hp
    obtain ⟨a, hstep⟩ := exists_step_of_request hp
    exact absurd hstep (hstill a)
  · rename_i call deadline request watch hp
    obtain ⟨hcall, hrequest, hdead, hdelay, -, hcur, hwritten, hawaits⟩ := h
    obtain ⟨-, hcancelled, hdry⟩ := (still_delay_iff hp).mp hstill
    have htime : time + k ≤ deadline := hdue deadline (by simp [State.deadline?, hp])
    refine ⟨hcall, hrequest, hdead, hdelay, htime, hcur, hwritten, ?_⟩
    cases hawaits with
    | on hread => exact .on (Or.inl (hdry rfl))
    | cancelled => exact absurd rfl hcancelled
    | off call => exact .off call
  · obtain ⟨all, hended, hsent⟩ := h
    exact ⟨all, hended.later hle, hsent⟩
  · obtain ⟨hcur, all, hended, hwritten⟩ := h
    exact ⟨hcur, all, hended.later hle, hwritten⟩
  · obtain ⟨all, hended, hsent, hwritten⟩ := h
    exact ⟨all, hended.later hle, hsent, hwritten⟩
  · exact h.elim

/-- The watcher notices what has just come. -/
theorem awaits_meet (got : Received ClientFrame) (inbox' : Inbox) (hdry : ¬ Dry inbox)
    (h : Awaits time latest inbox (notice seen) .on) :
    (onWatch got).2.or (notice seen).call? = (notice (seen ++ [(latest, got)])).call? ∧
      Awaits time latest inbox' (notice (seen ++ [(latest, got)])) (onWatch got).1 := by
  -- there is something to read, so it has only just come
  obtain ⟨hnothing, rfl⟩ : notice seen = .nothing ∧ latest = time := by
    generalize notice seen = n at h
    cases h with
    | on hread => exact ⟨rfl, hread.resolve_left hdry⟩
  rw [notice_snoc_of_nothing hnothing, hnothing]
  rcases onWatch_cases latest got with ⟨hwatch, hn⟩ | ⟨call, hwatch, hn⟩ | ⟨hwatch, hn⟩
  · rw [hn, hwatch]
    exact ⟨rfl, .on (Or.inr rfl)⟩
  · rw [hn, hwatch]
    exact ⟨rfl, .off call⟩
  · rw [hn, hwatch]
    exact ⟨rfl, .cancelled⟩

/-- What is met behind the end of the call has no part in it. -/
theorem Ended.meet (hdry : ¬ Dry inbox) (got : Received ClientFrame)
    (h : b.Ended time latest inbox (notice seen) all) :
    b.Ended time latest inbox' (notice (seen ++ [(latest, got)])) all := by
  by_cases hnothing : notice seen = .nothing
  · rw [notice_snoc_of_nothing hnothing]
    rw [hnothing] at h
    cases h with
    | due n hdue hlate hopen =>
      have hnews : b.due ≤ latest := (hopen rfl).resolve_left hdry
      refine .due _ hdue (fun t ht => ?_) fun _ => Or.inr hnews
      rcases onWatch_cases latest got with ⟨-, hn⟩ | ⟨call, -, hn⟩ | ⟨-, hn⟩
      · cases hn.symm.trans ht
      · cases hn.symm.trans ht
      · cases hn.symm.trans ht
        exact hnews
  · rw [notice_snoc_of_found hnothing]
    exact h.news (Or.inr ⟨rfl, hdry⟩)

/-- Outside of calls anything but a call frame is passed over. -/
theorem call?_of_idle (latest : Nat) (hcall : callIn got = none) (hq : (notice seen).call? = none) :
    (notice (seen ++ [(latest, got)])).call? = none := by
  by_cases hnothing : notice seen = .nothing
  · rw [notice_snoc_of_nothing hnothing]
    cases got with
    | frame f =>
      cases f with
      | call path metadata => cases hcall
      | _ => rfl
    | _ => rfl
  · rw [notice_snoc_of_found hnothing]
    exact hq

/-- The watcher meets something, or the main loop does behind the end of the call. -/
theorem course_meet (hgot : Meets s got t) (hnext : s.nextCall? = none)
    (h : b.Course base time latest (notice seen) s) :
    b.Course base time latest (notice (seen ++ [(latest, got)])) t := by
  obtain ⟨hqueued, h⟩ := h
  cases hgot with
  | idle k inbox hp hq hpoll =>
    have hdry := not_dry_of_poll hpoll
    simp only [hp] at h
    obtain ⟨hcur, all, hended, hwritten⟩ := h
    have hcall : callIn got = none := (nextCall?_of_read k got inbox hp hq hpoll).symm.trans hnext
    have hnone := call?_of_idle latest hcall (hqueued.symm.trans hq)
    refine ⟨hq.trans hnone.symm, ?_⟩
    rcases call_or_other got with ⟨path, metadata, rfl⟩ | ⟨-, -, hidle | ⟨failure, hover⟩⟩
    · cases hcall
    · simp only [hidle]
      exact ⟨hcur, all, hended.meet hdry got, hwritten⟩
    · simp only [hover]
      refine ⟨all, hended.meet hdry got, ⟨[], ?_⟩, fun _ => ⟨hq, hwritten⟩⟩
      simp [State.sent, hcur, hwritten]
  | watch k call work inbox hp hpoll =>
    have hdry := not_dry_of_poll hpoll
    simp only [hp] at h
    cases work with
    | request body =>
      obtain ⟨hcall, hbody, htime, hcur, hwritten, hawaits⟩ := h
      obtain ⟨hput, hwatch⟩ := awaits_meet got inbox hdry hawaits
      exact ⟨by rw [← hput, ← hqueued], hcall, hbody, htime, hcur, hwritten, hwatch⟩
    | delay deadline request =>
      obtain ⟨hcall, hrequest, hdead, hdelay, htime, hcur, hwritten, hawaits⟩ := h
      obtain ⟨hput, hwatch⟩ := awaits_meet got inbox hdry hawaits
      exact ⟨by rw [← hput, ← hqueued], hcall, hrequest, hdead, hdelay, htime, hcur, hwritten,
        hwatch⟩
    | stream x => exact h.elim

/-- Nothing is read for the call any more. -/
theorem not_hears_of_course (h : b.Course base time latest n s) : ¬ Hears s got t := by
  intro hgot
  obtain ⟨hidle, hreads⟩ := hgot.waits
  have h := h.2
  unfold State.reads? at hreads
  split at h <;> simp_all

/-- A call whose delay has run off is not cancelled any more. -/
theorem ended_of_due (hdue : b.due ≤ time) (h : Awaits time latest inbox n watch) :
    b.Ended time latest inbox n b.response := by
  cases h with
  | on hread =>
    refine .due _ hdue (fun t ht => by cases ht) fun _ => ?_
    exact hread.imp_right fun hnow => by rw [hnow]; exact hdue
  | cancelled =>
    refine .due _ hdue (fun t ht => ?_) fun hn => by cases hn
    rwa [← Notice.cancelled.inj ht]
  | off call => exact .due _ hdue (fun t ht => by cases ht) fun hn => by cases hn

/-- A call for which nothing is written yet has ended. -/
theorem course_end (hqueued : s.queued = n.call?) (hcur : s.outbox.current = none)
    (hwritten : s.outbox.written = base) (hended : b.Ended time latest s.inbox n all) :
    b.Course base time latest n { s with phase := .close all } :=
  ⟨hqueued, all, hended, by simp [State.sent, hcur, hwritten]⟩

/-- Only the last frames are written for the call, and writing on keeps those that were begun. -/
theorem course_push {outbox : Outbox} (hw : s.phase.Writes)
    (hsent : { s with outbox }.sent = s.sent) (h : b.Course base time latest n s) :
    b.Course base time latest n { s with outbox } := by
  obtain ⟨hqueued, h⟩ := h
  unfold Phase.Writes at hw
  split at hw
  · rename_i frames hp
    simp only [hp] at h
    obtain ⟨all, hended, hall⟩ := h
    refine ⟨hqueued, ?_⟩
    simp only [hp]
    exact ⟨all, hended, (congrArg (· ++ frames) hsent).trans hall⟩
  · rename_i call x watch hp
    simp only [hp] at h
  · exact hw.elim

/-- Whoever moves and meets nothing, the call goes on or ends as it is due. -/
theorem course_step {now : Time.Timestamp} (hmove : Move ⟨time, now⟩ (s, r) (t, r'))
    (hmeets : ∀ got, ¬ Meets s got t) (hnext : s.nextCall? = none)
    (h : b.Course base time latest n s) : b.Course base time latest n t := by
  have hcourse := h
  obtain ⟨hqueued, h⟩ := h
  -- the call leaves its handler in `answer`, `cancel` and `expire`; `delay` sets its deadline, and
  -- the other moves of a call of `Block` write its last frames
  cases hmove with
  | fetch s r k hreads hp ha hk =>
    have hdry : ¬ Dry s.inbox := fun hdry => ha hdry.2.1
    exact course_news (Or.inr ⟨rfl, hdry⟩) _ s.outbox.gone id hcourse
  | read s r k next got inbox hk hpoll =>
    rcases hears_or_meets hk hpoll with hgot | hgot
    · exact absurd hgot (not_hears_of_course hcourse)
    · exact absurd hgot (hmeets got)
  | takeUp s r path metadata hp hq => simp [State.nextCall?, hp, hq] at hnext
  | watch s r k call work got inbox hp hpoll =>
    exact absurd (.watch k call work inbox hp hpoll) (hmeets got)
  | answer s r call body watch o r' hp hs =>
    simp only [hp] at h
    obtain ⟨rfl, rfl, rfl, hcur, hwritten, hawaits⟩ := h
    have hdone := congrArg Prod.fst hs
    simp only [b.method, Service.start, b.decoded] at hdone
    split at hdone
    · rename_i hnow
      obtain rfl := Service.Answer.done.inj hdone
      have hdue : b.due ≤ b.begun := Nat.le_of_eq (by rw [due, hnow, Nat.add_zero])
      rw [finish, lastFrames_outcome]
      exact course_end hqueued hcur hwritten (ended_of_due hdue hawaits)
    · cases hdone
  | delay s r call body watch m request r' hp hs =>
    simp only [hp] at h
    obtain ⟨rfl, rfl, rfl, hcur, hwritten, hawaits⟩ := h
    have hdelayed := congrArg Prod.fst hs
    simp only [b.method, Service.start, b.decoded] at hdelayed
    split at hdelayed
    · cases hdelayed
    · rename_i hdelay
      obtain ⟨rfl, rfl⟩ := Service.Answer.delayed.inj hdelayed
      exact ⟨hqueued, rfl, rfl, rfl, hdelay, Nat.le_add_right _ _, hcur, hwritten, hawaits⟩
  | cancel s r call deadline request hp =>
    simp only [hp] at h
    obtain ⟨rfl, rfl, rfl, hdelay, htime, hcur, hwritten, hawaits⟩ := h
    cases hawaits with
    | cancelled =>
      exact course_end hqueued hcur hwritten (.cut _ hdelay (Nat.le_refl _) htime)
  | expire s r call deadline request watch hp hd =>
    simp only [hp] at h
    obtain ⟨rfl, rfl, rfl, hdelay, htime, hcur, hwritten, hawaits⟩ := h
    rw [finish, lastFrames_outcome]
    exact course_end hqueued hcur hwritten (ended_of_due hd hawaits)
  | writePart s r f k outbox hw hcur hpush =>
    obtain ⟨m, -, rfl, -⟩ := push_part _ _ f k hpush
    exact course_push hw (by simp [State.sent, Outbox.written, hcur]) hcourse
  | write s r f k outbox hw hcur hpush =>
    obtain ⟨hlog, hnone, -, -⟩ := push_complete _ _ f k hpush
    exact course_push hw (by simp [State.sent, Outbox.written, hcur, hlog, hnone]) hcourse
  | failLast s r frames f k hp hcur hpush =>
    simp only [hp] at h
    obtain ⟨all, hended, hsent⟩ := h
    have hgone := push_failed _ f k hpush
    exact ⟨hqueued, all, hended, ⟨frames, hsent⟩, fun hthere => by cases hgone.symm.trans hthere⟩
  | beginLast s r f rest hp hcur =>
    simp only [hp] at h
    obtain ⟨all, hended, hsent⟩ := h
    refine ⟨hqueued, all, hended, ?_⟩
    simpa [State.sent, hcur, Outbox.begin, Outbox.written] using hsent
  | endLast s r hp hcur =>
    simp only [hp] at h
    obtain ⟨all, hended, hsent⟩ := h
    exact ⟨hqueued, hcur, all, hended, by simpa [State.sent, hcur] using hsent⟩
  | _ => simp_all

end
end BlockCall
end EchoServer.Connection
