import EchoServer.Proofs.Connection.Moves

namespace EchoServer.Connection

open Wire (Inbox Received)

/-- Some party can bring a connection from the state `s` to the state `t`. -/
def Next (s t : State) : Prop := ∃ clock r r', Step clock (s, r) (t, r')

/-- A connection at rest: it has not broken down, and whatever the time and the registry, nobody can
move. -/
def Settled (s : State) : Prop := s.isBroken = false ∧ ∀ t, ¬ Next s t

theorem push_complete (o o' : Outbox) (f : ServerFrame) (n : Nat)
    (h : o.push f n = some (.complete o')) :
    o'.log = f :: o.log ∧ o'.current = none ∧ o'.gone = o.gone ∧ o.gone = false := by
  unfold Outbox.push at h
  split at h
  · cases h
  · rename_i hg
    have hgone : o.gone = false := by simpa using hg
    split at h
    · obtain rfl : { o with log := f :: o.log, current := none } = o' := by simpa using h
      exact ⟨rfl, rfl, rfl, hgone⟩
    · split at h
      · obtain rfl : { o with log := f :: o.log, current := none, room := _ } = o' := by
          simpa using h
        exact ⟨rfl, rfl, rfl, hgone⟩
      · split at h <;> cases h

/-- A part of a frame is some of its bytes, and not all. -/
theorem push_part (o o' : Outbox) (f : ServerFrame) (n : Nat)
    (h : o.push f n = some (.part o')) :
    ∃ m, m < n ∧ o' = { o with current := some (f, m), room := some 0 } ∧ o.gone = false := by
  unfold Outbox.push at h
  split at h
  · cases h
  · rename_i hg
    split at h
    · cases h
    · rename_i room hroom
      split at h
      · cases h
      · split at h
        · cases h
        · obtain rfl : { o with current := some (f, n - room), room := some 0 } = o' := by
            simpa using h
          exact ⟨n - room, by omega, rfl, by simpa using hg⟩

theorem push_failed (o : Outbox) (f : ServerFrame) (n : Nat) (h : o.push f n = some .failed) :
    o.gone = true := by
  unfold Outbox.push at h
  split at h
  · assumption
  · split at h
    · cases h
    · split at h
      · cases h
      · split at h <;> cases h

theorem push_roomy (o : Outbox) (f : ServerFrame) (n : Nat) (hg : o.gone = false)
    (hr : o.room = none) :
    o.push f n = some (.complete { o with log := f :: o.log, current := none }) := by
  simp [Outbox.push, hg, hr]

/-- The input that is left: whole frames, and the call that was put aside. -/
def State.input (s : State) : Nat := 2 * s.inbox.size + s.queued.toList.length

/-- The stages of a call, from its end backwards. -/
def Phase.stage : Phase → Nat
  | .finished _ => 0
  | .idle => 1
  | .close _ => 2
  | .gather _ _ => 3
  | .collect _ _ => 4
  | .work _ (.delay _ _) _ => 5
  | .work _ (.request _) _ => 6
  | .work _ (.stream t) _ =>
    match t.handler with
    | .start _ => 6
    | _ => 5

/-- What a handler has left to do, its responses counted with what happens to them later. -/
def Handler.toDo : Handler → Nat
  | .send pending _ => 3 * pending.length + 1
  | .reply _ => 4
  | .listen => 1
  | _ => 0

def Watch.toDo : Watch → Nat
  | .on => 1
  | _ => 0

/-- What is left to do in a phase. -/
def Phase.toDo : Phase → Nat
  | .close frames => 2 * frames.length
  | .work _ (.stream t) watch => t.handler.toDo + 2 * t.queue.length + watch.toDo
  | .work _ _ watch => watch.toDo
  | _ => 0

/-- The bytes of the current frame that are left to write. -/
def Outbox.bytesLeft (o : Outbox) : Nat :=
  match o.current with
  | some (_, n) => n
  | none => 0

/-- What is left to do for a connection, the most important first. -/
def State.left (s : State) : Nat × Nat × Nat × Nat × Nat :=
  (s.input, s.inbox.arrived.length, s.phase.stage,
    s.phase.toDo + s.outbox.current.toList.length, s.outbox.bytesLeft)

/-- There is less to do in the first state. -/
def Less (t s : State) : Prop :=
  Prod.Lex (· < ·) (Prod.Lex (· < ·) (Prod.Lex (· < ·) (Prod.Lex (· < ·) (· < ·)))) t.left s.left

theorem less_wellFounded : WellFounded Less :=
  InvImage.wf State.left (Prod.lex Nat.lt_wfRel (Prod.lex Nat.lt_wfRel
    (Prod.lex Nat.lt_wfRel (Prod.lex Nat.lt_wfRel Nat.lt_wfRel)))).wf

section
variable {s t : State}

theorem less_of_input (h : t.input < s.input) : Less t s := Prod.Lex.left _ _ h

theorem less_of_arrived (hi : t.input = s.input)
    (h : t.inbox.arrived.length < s.inbox.arrived.length) : Less t s := by
  simp only [Less, State.left, hi]
  exact Prod.Lex.right _ (Prod.Lex.left _ _ h)

theorem less_of_stage (hi : t.inbox = s.inbox) (hq : t.queued = s.queued)
    (h : t.phase.stage < s.phase.stage) : Less t s := by
  simp only [Less, State.left, State.input, hi, hq]
  exact Prod.Lex.right _ (Prod.Lex.right _ (Prod.Lex.left _ _ h))

theorem less_of_toDo (hi : t.inbox = s.inbox) (hq : t.queued = s.queued)
    (hs : t.phase.stage = s.phase.stage)
    (h : t.phase.toDo + t.outbox.current.toList.length <
      s.phase.toDo + s.outbox.current.toList.length) : Less t s := by
  simp only [Less, State.left, State.input, hi, hq, hs]
  exact Prod.Lex.right _ (Prod.Lex.right _ (Prod.Lex.right _ (Prod.Lex.left _ _ h)))

theorem less_of_bytes (hi : t.inbox = s.inbox) (hq : t.queued = s.queued)
    (hp : t.phase = s.phase)
    (hc : t.outbox.current.toList.length = s.outbox.current.toList.length)
    (h : t.outbox.bytesLeft < s.outbox.bytesLeft) : Less t s := by
  simp only [Less, State.left, State.input, hi, hq, hp, hc]
  exact Prod.Lex.right _ (Prod.Lex.right _ (Prod.Lex.right _ (Prod.Lex.right _ h)))

end

/-- A handler has three steps less to do when it has sent a response. -/
theorem toDo_of_sends (handler next : Handler) (y : EchoResponse)
    (h : handler.sends? = some (y, next)) : handler.toDo = next.toDo + 3 := by
  unfold Handler.sends? at h
  split at h
  · obtain ⟨-, rfl⟩ := by simpa using h
    simp [Handler.toDo]
    omega
  · obtain ⟨-, rfl⟩ := by simpa using h
    rfl
  · cases h

theorem stage_of_sends (call : Call) (x : Stream) (watch : Watch) (next : Handler)
    (y : EchoResponse) (h : x.handler.sends? = some (y, next)) :
    (Phase.work call (.stream x) watch).stage = 5 ∧
      ∀ queue forwarding, (Phase.work call (.stream ⟨next, queue, forwarding⟩) watch).stage = 5 := by
  unfold Handler.sends? at h
  split at h
  · rename_i hx
    obtain ⟨-, rfl⟩ := by simpa using h
    simp [Phase.stage, hx]
  · rename_i hx
    obtain ⟨-, rfl⟩ := by simpa using h
    simp [Phase.stage, hx]
  · cases h

theorem size_of_frame (i j : Inbox) (n : Nat) (f : ClientFrame)
    (h : i.poll ClientFrame.decoder n = some (some (.frame f), j)) : j.size + 2 ≤ i.size := by
  obtain ⟨k, rest, hp, rfl⟩ := (Wire.poll_eq_frame_iff _ _ _ _ _).mp h
  obtain ⟨-, hlen, hk⟩ := Wire.parse_complete_bytes _ _ _ _ _ hp
  simp only [Inbox.size]
  omega

/-- The end of a stream and its failures take nothing. -/
theorem inbox_of_end (i j : Inbox) (n : Nat) (got : Received ClientFrame)
    (h : i.poll ClientFrame.decoder n = some (some got, j)) (hg : ∀ f, got ≠ .frame f) :
    j = i := by
  cases got with
  | frame f => exact absurd rfl (hg f)
  | ended => exact ((Wire.poll_eq_ended_iff _ _ _ _).mp h).1
  | failed e => exact ((Wire.poll_eq_failed_iff _ _ _ _ _).mp h).1

/-- Whoever meets the end of the stream gets on. -/
theorem stage_of_end (s : State) (k : Received ClientFrame → Phase) (got : Received ClientFrame)
    (hk : s.reads? = some k) (hg : ∀ f, got ≠ .frame f) :
    (k got).stage < s.phase.stage ∨
      (k got).stage = s.phase.stage ∧ (k got).toDo < s.phase.toDo := by
  unfold State.reads? at hk
  split at hk
  · rename_i hp
    split at hk
    · obtain rfl := Option.some.inj hk
      cases got with
      | frame f => exact absurd rfl (hg f)
      | ended => simp [hp, onIdle, Phase.stage]
      | failed e => simp [hp, onIdle, Phase.stage]
    · cases hk
  · rename_i call body hp
    obtain rfl := Option.some.inj hk
    cases got with
    | frame f => exact absurd rfl (hg f)
    | ended => simp [hp, onGather, Phase.stage]
    | failed e => simp [hp, onGather, Phase.stage]
  · rename_i call contents hp
    obtain rfl := Option.some.inj hk
    cases got with
    | frame f => exact absurd rfl (hg f)
    | ended =>
      rw [hp]
      exact Or.inl (show 2 < 4 by decide)
    | failed e =>
      rw [hp]
      exact Or.inl (show 2 < 4 by decide)
  · rename_i call stream watch hp
    split at hk
    · rename_i ht
      obtain rfl := Option.some.inj hk
      right
      cases got with
      | frame f => exact absurd rfl (hg f)
      | ended =>
        simp [hp, ht, onListen, requestOf, Except.bind, Phase.stage, Phase.toDo, Handler.toDo]
      | failed e =>
        simp [hp, ht, onListen, requestOf, Except.bind, Phase.stage, Phase.toDo, Handler.toDo]
    · cases hk
  · cases hk

theorem less_of_move (clock : Clock) (a b : State × Registry) (h : Move clock a b) :
    Less b.1 a.1 := by
  cases h with
  | fetch s r n hr hp ha hn =>
    have hlen := List.length_pos_iff.mpr ha
    refine less_of_arrived ?_ ?_
    · simp only [State.input, Inbox.size, Inbox.take, List.length_append, List.length_take,
        List.length_drop]
      omega
    · simp only [Inbox.take, List.length_drop]
      omega
  | read s r n k got inbox hk hpoll =>
    by_cases hg : ∃ f, got = .frame f
    -- a frame is bytes of the input, and the end of the stream lets the phase get on
    · obtain ⟨f, rfl⟩ := hg
      have hsize := size_of_frame _ _ n f hpoll
      refine less_of_input ?_
      simp only [State.input]
      omega
    · have hend (f : ClientFrame) (hf : got = .frame f) : False := hg ⟨f, hf⟩
      obtain rfl := inbox_of_end _ _ n got hpoll hend
      rcases stage_of_end s k got hk hend with hstage | ⟨hstage, htodo⟩
      · exact less_of_stage rfl rfl hstage
      · exact less_of_toDo rfl rfl hstage (Nat.add_lt_add_right htodo _)
  | takeUp s r path metadata hp hq =>
    refine less_of_input ?_
    simp [State.input, hq]
  | watch s r n call work got inbox hp hpoll =>
    by_cases hg : ∃ f, got = .frame f
    · obtain ⟨f, rfl⟩ := hg
      have hsize := size_of_frame _ _ n f hpoll
      refine less_of_input ?_
      -- the call that is put aside counts one, its frame counted at least four
      have hone (q : Option (String × Metadata)) : q.toList.length ≤ 1 := by cases q <;> simp
      have := hone ((onWatch (.frame f)).2.or s.queued)
      simp only [State.input]
      omega
    · have hend (f : ClientFrame) (hf : got = .frame f) : False := hg ⟨f, hf⟩
      obtain rfl := inbox_of_end _ _ n got hpoll hend
      have hquiet : (onWatch got).2 = none ∧ (onWatch got).1 = .cancelled := by
        cases got with
        | frame f => exact absurd rfl (hend f)
        | ended => exact ⟨rfl, rfl⟩
        | failed e => exact ⟨rfl, rfl⟩
      refine less_of_toDo rfl (by simp [hquiet.1]) ?_ ?_
      · rw [hp]
        cases work <;> rfl
      · rw [hp, hquiet.2]
        cases work <;> simp [Phase.toDo, Watch.toDo]
  | answer s r call body watch o r' hp hs =>
    exact less_of_stage rfl rfl (by simp [hp, finish, Phase.stage])
  | delay s r call body watch n request r' hp hs =>
    exact less_of_stage rfl rfl (by simp [hp, Phase.stage])
  | cancel s r call deadline request hp =>
    exact less_of_stage rfl rfl (by simp [hp, reject, finish, Phase.stage])
  | expire s r call deadline request watch hp hd =>
    exact less_of_stage rfl rfl (by simp [hp, finish, Phase.stage])
  | expand s r call t body watch hp ht =>
    refine less_of_stage rfl rfl ?_
    unfold startExpand
    split <;> simp [hp, ht, Phase.stage]
  | sent s r call t verdict watch hp ht =>
    refine less_of_toDo rfl rfl (by simp [hp, ht, Phase.stage]) ?_
    simp [hp, ht, Phase.toDo, Handler.toDo]
  | send s r call t x next watch hp ht hf hroom =>
    -- the response is counted with three in the handler and with two in the queue
    have htodo := toDo_of_sends t.handler next x ht
    obtain ⟨hstage, hnext⟩ := stage_of_sends call t watch next x ht
    refine less_of_toDo rfl rfl (by rw [hp, hstage, hnext]) ?_
    simp only [hp, Phase.toDo, htodo, List.length_append, List.length_singleton]
    omega
  | refuse s r call t x next watch hp ht hf =>
    have htodo := toDo_of_sends t.handler next x ht
    obtain ⟨hstage, -⟩ := stage_of_sends call t watch next x ht
    have hdone : (Handler.done (.error Service.streamClosed)).toDo = 0 := rfl
    refine less_of_toDo rfl rfl (by rw [hp, hstage]; rfl) ?_
    simp only [hp, Phase.toDo, htodo, hdone]
    omega
  | forward s r call t x rest watch hp hc hf hq =>
    refine less_of_toDo rfl rfl (by simp [hp, Phase.stage]) ?_
    simp [hp, hc, hq, Phase.toDo, Outbox.begin]
    omega
  | endStream s r call t result watch hp ht hc hf hq =>
    exact less_of_stage rfl rfl (by simp [hp, ht, streamEnd, finish, Phase.stage])
  | giveUp s r call t result watch hp ht hc hf =>
    exact less_of_stage rfl rfl (by simp [hp, ht, Phase.stage])
  | writePart s r f n outbox hw hc hpush =>
    obtain ⟨m, hm, rfl, -⟩ := push_part _ _ f n hpush
    refine less_of_bytes rfl rfl rfl (by simp [hc]) ?_
    simpa [Outbox.bytesLeft, hc] using hm
  | write s r f n outbox hw hc hpush =>
    obtain ⟨-, hcur, -, -⟩ := push_complete _ _ f n hpush
    exact less_of_toDo rfl rfl rfl (by simp [hc, hcur])
  | failStream s r call t watch f n hp hc hpush =>
    refine less_of_toDo rfl rfl (by simp [hp, Phase.stage]) ?_
    simp [hp, hc, Phase.toDo]
  | failLast s r frames f n hp hc hpush =>
    exact less_of_stage rfl rfl (by simp [hp, Phase.stage])
  | beginLast s r f rest hp hc =>
    refine less_of_toDo rfl rfl (by simp [hp, Phase.stage]) ?_
    simp [hp, hc, Phase.toDo, Outbox.begin]
    omega
  | endLast s r hp hc => exact less_of_stage rfl rfl (by simp [hp, Phase.stage])

/-- No connection moves for ever without news from outside. -/
theorem next_wellFounded : WellFounded fun t s => Next s t :=
  Subrelation.wf (fun {_ _} ⟨clock, r, r', h⟩ =>
    less_of_move clock _ _ h.move) less_wellFounded

end EchoServer.Connection
