import EchoServer.Proofs.Connection.Rest

namespace EchoServer.Connection

open Wire (Inbox Received)

/-- Where a reader can go on there is something for it. -/
theorem not_dry_of_poll {i j : Inbox} {n : Nat} {got : Option (Received ClientFrame)}
    (hpoll : i.poll ClientFrame.decoder n = some (got, j)) : ¬ Dry i := by
  intro hdry
  cases hpoll.symm.trans ((Wire.poll_eq_none_iff _ _ _).mpr hdry)

/-- The connection holds a call back at this time, and can do nothing else about it. -/
def HoldsBack (elapsed : Nat) (s : State) : Prop :=
  ∃ call deadline request watch, s.phase = .work call (.delay deadline request) watch ∧
    elapsed < deadline ∧ watch ≠ .cancelled ∧ (watch = .on → Dry s.inbox)

section
variable {clock clock' : Clock} {s : State} {r : Registry} {b : State × Registry}

/-- A handler that has a request answers it, or begins to hold its answer back. -/
theorem exists_step_of_request {call : Call} {body : Json} {watch : Watch}
    (hp : s.phase = .work call (.request body) watch) : ∃ b, Step clock (s, r) b := by
  have hwhole : s.isBroken = false := whole_of_phase hp rfl
  rcases hs : Service.start call.method call.metadata body clock.now r with ⟨answer, r'⟩
  cases answer with
  | done o => exact ⟨_, (Move.answer s r call body watch o r' hp hs).step hwhole⟩
  | delayed n request =>
    exact ⟨_, (Move.delay s r call body watch n request r' hp hs).step hwhole⟩

/-- Where no call is held back, whoever can move at one time can move at any other. -/
theorem exists_step_at
    (hno : ∀ call deadline request watch, s.phase ≠ .work call (.delay deadline request) watch)
    (h : Step clock (s, r) b) : ∃ b', Step clock' (s, r) b' := by
  have hwhole : s.isBroken = false := h.whole
  obtain ⟨who, chunk, hact⟩ := h
  cases who with
  | main => exact ⟨b, .main, chunk, hact⟩
  | forwarder => exact ⟨b, .forwarder, chunk, hact⟩
  | watcher => exact ⟨b, .watcher, chunk, hact⟩
  | timer =>
    simp only [act, hwhole, Bool.false_eq_true, if_false] at hact
    obtain ⟨t, ht, -⟩ := Option.map_eq_some_iff.mp hact
    unfold State.actTimer at ht
    split at ht
    · rename_i call deadline request watch hp
      exact absurd hp (hno call deadline request watch)
    · cases ht
  | handler =>
    cases hp : s.phase with
    | work call work watch =>
      cases work with
      -- the answer may be another one at another time, but there is one
      | request body => exact exists_step_of_request hp
      | delay deadline request => exact absurd hp (hno call deadline request watch)
      | stream t =>
        have hsame : act .handler chunk clock' r s = act .handler chunk clock r s := by
          simp only [act, State.actHandler, hp]
        exact ⟨b, .handler, chunk, hsame.trans hact⟩
    | _ => simp [act, hwhole, State.actHandler, hp] at hact

/-- A connection that holds a call back stands still until the delay has run off, the call is
cancelled, or there is something for its watcher. -/
theorem still_delay_iff {call : Call} {deadline : Nat} {request : BlockRequest} {watch : Watch}
    (hp : s.phase = .work call (.delay deadline request) watch) :
    Still clock (s, r) ↔
      clock.elapsed < deadline ∧ watch ≠ .cancelled ∧ (watch = .on → Dry s.inbox) := by
  have hwhole : s.isBroken = false := whole_of_phase hp rfl
  constructor
  · intro hstill
    replace hstill (b : State × Registry) : ¬ Move clock (s, r) b :=
      fun hmove => hstill b (hmove.step hwhole)
    refine ⟨?_, ?_, ?_⟩
    · apply Nat.lt_of_not_le
      intro hdue
      exact hstill _ (.expire s r call deadline request watch hp hdue)
    · rintro rfl
      exact hstill _ (.cancel s r call deadline request hp)
    · rintro rfl
      cases hpoll : s.inbox.poll ClientFrame.decoder 0 with
      | none => exact (Wire.poll_eq_none_iff _ _ _).mp hpoll
      | some p =>
        obtain ⟨got, inbox⟩ := p
        cases got with
        | none => exact absurd (move_of_fetch 0 (Or.inr ⟨call, _, hp⟩) inbox hpoll) (hstill _)
        | some got => exact absurd (.watch s r 0 call _ got inbox hp hpoll) (hstill _)
  · rintro ⟨hdue, hcancelled, hdry⟩ b ⟨who, chunk, hact⟩
    simp only [act, hwhole, Bool.false_eq_true, if_false] at hact
    cases who with
    | main => simp [State.actMain, hp] at hact
    | forwarder => simp [State.actForwarder, hp] at hact
    | handler => simp [State.actHandler, hp, hcancelled] at hact
    | timer => simp [State.actTimer, hp, Nat.not_le.mpr hdue] at hact
    | watcher =>
      cases watch with
      | on =>
        have hpoll : s.inbox.poll ClientFrame.decoder chunk = none :=
          (Wire.poll_eq_none_iff _ _ _).mpr (hdry rfl)
        simp [State.actWatcher, hp, hpoll] at hact
      | off => simp [State.actWatcher, hp] at hact
      | cancelled => simp [State.actWatcher, hp] at hact

/-- Where nobody can move, the connection is at rest or holds a call back. -/
theorem atRest_or_holdsBack (hquiet : Quiet clock (s, r)) (hgone : s.outbox.gone = false)
    (hroom : s.outbox.room = none) (hcap : 0 < s.capacity) :
    AtRest s ∨ HoldsBack clock.elapsed s := by
  obtain ⟨hwhole, hstill⟩ := hquiet
  by_cases hdelay : ∃ call deadline request watch,
      s.phase = .work call (.delay deadline request) watch
  · obtain ⟨call, deadline, request, watch, hp⟩ := hdelay
    exact Or.inr ⟨call, deadline, request, watch, hp, (still_delay_iff hp).mp hstill⟩
  · left
    apply (mobile_or_atRest clock.now r hwhole hgone hroom hcap).resolve_left
    rintro ⟨elapsed, b, hstep⟩
    obtain ⟨b', hstep'⟩ : ∃ b', Step clock (s, r) b' :=
      exists_step_at (fun call deadline request watch hp =>
        hdelay ⟨call, deadline, request, watch, hp⟩) hstep
    exact hstill b' hstep'

/-- Whether a party can move does not depend on how many bytes it would take. -/
theorem act_eq_none_any {who : Actor} {n m : Nat} (h : act who n clock r s = none) :
    act who m clock r s = none := by
  unfold act at h ⊢
  rw [ite_eq_left_iff] at h ⊢
  intro hwhole
  replace h := h hwhole
  have hpoll (h : s.inbox.poll ClientFrame.decoder n = none) :
      s.inbox.poll ClientFrame.decoder m = none :=
    (Wire.poll_eq_none_iff _ _ _).mpr ((Wire.poll_eq_none_iff _ _ _).mp h)
  have hread (k : Received ClientFrame → Phase) (h : s.readInto n k = none) :
      s.readInto m k = none := by
    unfold State.readInto at h ⊢
    split at h
    · rename_i hnone
      rw [hpoll hnone]
    · cases h
    · cases h
  cases who with
  | main =>
    have h := Option.map_eq_none_iff.mp h
    apply Option.map_eq_none_iff.mpr
    unfold State.actMain at h ⊢
    split at h
    · split at h
      · cases h
      · exact hread _ h
    · exact hread _ h
    · exact hread _ h
    · exact h
    · rfl
    · rfl
  | handler =>
    simp only [State.actHandler] at h ⊢
    split at h
    · split at h
      · cases h
      · cases h
    · exact h
    · split at h
      · cases h
      · cases h
      · exact h
      · exact h
      · split at h
        · rename_i hnone
          rw [hpoll hnone]
        · cases h
        · cases h
      · rfl
    · rfl
  | forwarder => exact h
  | watcher =>
    have h := Option.map_eq_none_iff.mp h
    apply Option.map_eq_none_iff.mpr
    unfold State.actWatcher at h ⊢
    split at h
    · split at h
      · rename_i hnone
        rw [hpoll hnone]
      · cases h
      · cases h
    · rfl
  | timer => exact h

/-- A schedule asks everybody, so it ends where nobody can move. -/
theorem still_iff_move_eq_none {a : State × Registry} : Still clock a ↔ move clock a = none := by
  constructor
  · intro hstill
    cases hmove : move clock a with
    | none => rfl
    | some b => exact absurd (step_of_move hmove) (hstill b)
  · rintro hmove b ⟨who, chunk, hact⟩
    have hasked := List.findSome?_eq_none_iff.mp hmove who (by cases who <;> decide)
    rw [act_eq_none_any hasked] at hact
    cases hact

end
end EchoServer.Connection
