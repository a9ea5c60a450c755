import EchoServer.Proofs.Connection.Accounted
import EchoServer.Proofs.Wire.Front

namespace EchoServer.Connection

open Wire (Front Inbox Received)

/-- The frames that were read for the call. -/
def Account.frames (c : Account) : List ClientFrame := c.reads.filterMap Received.frame?

/-- The call is one of the stream: its call frame stands there up to its place, and behind it
stands what was read for it. -/
structure Account.In (c : Account) (stream : List UInt8) : Prop where
  place : c.place ≤ stream.length
  called : ∃ before, Front ClientFrame.decoder stream (before ++ [.call c.path c.metadata])
    (stream.drop c.place)
  read : ∃ rest, Front ClientFrame.decoder (stream.drop c.place) c.frames rest

/-- The call reads on for itself. -/
def Phase.Attends : Phase → Prop
  | .gather _ _ => True
  | .collect _ _ => True
  | .work _ (.stream x) _ => x.handler.Listens
  | _ => False

/-- What is read next may belong to the call with the last account. -/
def State.Attends (s : State) : Prop := s.queued ≠ none ∨ s.phase.Attends

/-- The accounts are those of calls in the stream, and what is left of the stream is behind what
they say. -/
structure Tracked (stream : List UInt8) (accounts : List Account) (s : State) : Prop where
  position : ∃ frames, Front ClientFrame.decoder stream frames s.inbox.bytes
  all : ∀ c ∈ accounts, c.In stream
  last : s.Attends → ∃ front c, accounts = front ++ [c] ∧
    Front ClientFrame.decoder (stream.drop c.place) c.frames s.inbox.bytes

section
variable {c : Account} {stream : List UInt8}

theorem Account.In.append (h : c.In stream) (more : List UInt8) : c.In (stream ++ more) := by
  have hdrop : (stream ++ more).drop c.place = stream.drop c.place ++ more :=
    List.drop_append_of_le_length h.place
  obtain ⟨before, hcalled⟩ := h.called
  obtain ⟨rest, hread⟩ := h.read
  refine ⟨?_, ⟨before, ?_⟩, ⟨rest ++ more, ?_⟩⟩
  · rw [List.length_append]
    exact Nat.le_add_right_of_le h.place
  · rw [hdrop]
    exact hcalled.append more
  · rw [hdrop]
    exact hread.append more

theorem frames_read (c : Account) (got : Received ClientFrame) :
    (c.read got).frames = c.frames ++ got.frame?.toList := by
  unfold Account.frames Account.read
  rw [List.filterMap_append]
  cases got <;> rfl

/-- A look of the handler changes nothing in the accounts but what was looked at. -/
theorem look_eq (queued : Option (String × Metadata)) (accounts : List Account)
    (readings : List Reading) : look queued accounts readings = accounts ∨
      ∃ front c back g, accounts = front ++ c :: back ∧
        look queued accounts readings = front ++ { c with looked := some g } :: back := by
  cases readings with
  | nil => exact Or.inl rfl
  | cons g readings =>
    cases queued with
    | none =>
      rcases List.eq_nil_or_concat accounts with rfl | ⟨front, c, rfl⟩
      · exact Or.inl rfl
      · refine Or.inr ⟨front, c, [], g, by simp, ?_⟩
        rw [List.concat_eq_append]
        exact List.modifyLast_concat _ _ _
    | some call =>
      rcases List.eq_nil_or_concat accounts with rfl | ⟨front, last, rfl⟩
      · exact Or.inl rfl
      · rcases List.eq_nil_or_concat front with rfl | ⟨front, c, rfl⟩
        · exact Or.inl rfl
        · refine Or.inr ⟨front, c, [last], g, by simp, ?_⟩
          simp only [look, List.concat_eq_append, List.dropLast_concat, List.getLast?_concat,
            Option.toList_some]
          rw [List.modifyLast_concat, List.append_assoc]
          rfl

end

section
variable {stream : List UInt8} {accounts : List Account} {s t : State}

theorem Tracked.look {clock : Clock} {r : Registry} (h : Tracked stream accounts s)
    (hbytes : t.inbox.bytes = s.inbox.bytes) (hattends : t.Attends → s.Attends) :
    Tracked stream (look s.queued accounts (lookedAt clock r s t)) t := by
  rcases look_eq s.queued accounts (lookedAt clock r s t) with
    hsame | ⟨front, c, back, g, rfl, hlook⟩
  · rw [hsame]
    exact ⟨hbytes ▸ h.position, h.all, fun ht => hbytes ▸ h.last (hattends ht)⟩
  · rw [hlook]
    have hin : ({ c with looked := some g } : Account).In stream :=
      have hc := h.all c (by simp)
      ⟨hc.place, hc.called, hc.read⟩
    refine ⟨hbytes ▸ h.position, ?_, ?_⟩
    · intro x hx
      rcases List.mem_append.mp hx with hx | hx
      · exact h.all x (by simp [hx])
      · rcases List.mem_cons.mp hx with rfl | hx
        · exact hin
        · exact h.all x (by simp [hx])
    -- the account that was looked at is the last one, or stands before it
    · intro ht
      obtain ⟨front', last, haccounts, hlast⟩ := h.last (hattends ht)
      rw [← hbytes] at hlast
      rcases List.eq_nil_or_concat back with rfl | ⟨back, x, rfl⟩
      · obtain ⟨rfl, hc⟩ := List.append_inj' haccounts rfl
        obtain rfl := List.singleton_inj.mp hc
        exact ⟨front, _, rfl, hlast⟩
      · have hx : (front ++ c :: back) ++ [x] = front' ++ [last] := by simpa using haccounts
        obtain ⟨-, hx⟩ := List.append_inj' hx rfl
        obtain rfl := List.singleton_inj.mp hx
        exact ⟨front ++ { c with looked := some g } :: back, x, by simp, hlast⟩

theorem startExpand_not_listens (body : Json) : ¬ (startExpand body).Listens := by
  unfold startExpand
  split <;> exact id

theorem attends_of_hears {got : Received ClientFrame} (h : Hears s got t) : s.Attends := by
  cases h with
  | read k n inbox hbusy hk hpoll =>
    unfold State.reads? at hk
    split at hk
    · rename_i hp
      exact absurd hp hbusy
    · rename_i hp
      exact Or.inr (by rw [hp]; trivial)
    · rename_i hp
      exact Or.inr (by rw [hp]; trivial)
    · rename_i hp
      split at hk
      · rename_i hx
        refine Or.inr ?_
        rw [hp, Phase.Attends, hx]
        trivial
      · cases hk
    · cases hk

/-- What the running call reads stands behind what it has read. -/
theorem tracked_hear {got : Received ClientFrame} (hgot : Hears s got t)
    (h : Tracked stream accounts s) : Tracked stream (accounts.modifyLast (·.read got)) t := by
  obtain ⟨frames, hposition⟩ := h.position
  obtain ⟨front, c, rfl, hlast⟩ := h.last (attends_of_hears hgot)
  have hfront : Front ClientFrame.decoder s.inbox.bytes got.frame?.toList t.inbox.bytes := by
    cases hgot with
    | read k n inbox hbusy hk hpoll => exact .of_poll hpoll
  have hread : Front ClientFrame.decoder (stream.drop c.place) (c.read got).frames
      t.inbox.bytes := by
    rw [frames_read]
    exact hlast.trans hfront
  rw [List.modifyLast_concat]
  refine ⟨⟨_, hposition.trans hfront⟩, ?_, fun _ => ⟨front, _, rfl, hread⟩⟩
  intro x hx
  rcases List.mem_append.mp hx with hx | hx
  · exact h.all x (by simp [hx])
  · obtain rfl := List.mem_singleton.mp hx
    have hc := h.all c (by simp)
    exact ⟨hc.place, hc.called, _, hread⟩

/-- A call frame that is met begins an account at its place. -/
theorem tracked_meet {got : Received ClientFrame} (hgot : Meets s got t)
    (haccounted : Accounted accounts s) (h : Tracked stream accounts s) :
    Tracked stream (accounts ++ opened (stream.length - t.inbox.size) got) t := by
  obtain ⟨frames, hposition⟩ := h.position
  have hfront : Front ClientFrame.decoder s.inbox.bytes got.frame?.toList t.inbox.bytes := by
    cases hgot with
    | idle n inbox hp hq hpoll => exact .of_poll hpoll
    | watch n call work inbox hp hpoll => exact .of_poll hpoll
  have hnew := hposition.trans hfront
  have hdrop : stream.drop (stream.length - t.inbox.size) = t.inbox.bytes := by
    rw [← Inbox.length_bytes]
    exact hnew.drop_eq
  rcases call_or_other got with ⟨path, metadata, rfl⟩ | ⟨hopened, hput, hidle⟩
  · have hread : Front ClientFrame.decoder (stream.drop (stream.length - t.inbox.size)) []
        t.inbox.bytes := by
      rw [hdrop]
      exact .nil _
    refine ⟨⟨_, hnew⟩, ?_, fun _ => ⟨accounts, _, rfl, hread⟩⟩
    intro c hc
    rcases List.mem_append.mp hc with hc | hc
    · exact h.all c hc
    · obtain rfl := List.mem_singleton.mp hc
      refine ⟨Nat.sub_le _ _, ⟨frames, ?_⟩, _, hread⟩
      show Front ClientFrame.decoder stream _ (stream.drop (stream.length - t.inbox.size))
      rw [hdrop]
      exact hnew
  -- no other frame begins an account, and nobody who reads for a call has met it
  · have hquiet : ¬ t.Attends := by
      cases hgot with
      | idle n inbox hp hq hpoll =>
        rintro (hqueued | hphase)
        · exact hqueued hq
        · rcases hidle with hidle | ⟨failure, hidle⟩ <;> simp [hidle, Phase.Attends] at hphase
      | watch n call work inbox hp hpoll =>
        obtain ⟨taken, -, hstage⟩ := haccounted
        have hq := queued_of_watch hp hstage
        rintro (hqueued | hphase)
        · exact hqueued (by rw [hput, hq]; rfl)
        · cases work with
          | stream x =>
            obtain ⟨front, c, base, bodies, -, -, hstream⟩ := (stage_stream_iff hp).mp hstage
            obtain ⟨-, hoff, -⟩ := hstream.listens hphase
            cases hoff
          | request body => exact hphase
          | delay deadline request => exact hphase
    rw [hopened, List.append_nil]
    exact ⟨⟨_, hnew⟩, h.all, fun ht => absurd ht hquiet⟩

/-- Where nothing is read, what is left of the stream stays, and nobody begins to read for a call
but who was about to. -/
theorem attends_of_move (clock : Clock) (s t : State) (r r' : Registry)
    (hmove : Move clock (s, r) (t, r')) (hears : ∀ got, ¬ Hears s got t)
    (hmeets : ∀ got, ¬ Meets s got t) :
    t.inbox.bytes = s.inbox.bytes ∧ (t.Attends → s.Attends) := by
  have hover (phase : Phase) (hphase : ¬ phase.Attends)
      (h : ({ s with phase } : State).Attends) : s.Attends :=
    Or.inl (h.resolve_right hphase)
  cases hmove with
  | fetch s r n hr hp ha hn => exact ⟨Inbox.bytes_take _ _, id⟩
  | read s r n k got inbox hk hpoll =>
    exact (hears_or_meets hk hpoll).elim (fun h => absurd h (hears got))
      fun h => absurd h (hmeets got)
  | takeUp s r path metadata hp hq => exact ⟨rfl, fun _ => Or.inl (by rw [hq]; simp)⟩
  | watch s r n call work got inbox hp hpoll =>
    exact absurd (.watch n call work inbox hp hpoll) (hmeets got)
  | answer s r call body watch o r' hp hs => exact ⟨rfl, hover _ id⟩
  | delay s r call body watch n request r' hp hs => exact ⟨rfl, hover _ id⟩
  | cancel s r call deadline request hp => exact ⟨rfl, hover _ id⟩
  | expire s r call deadline request watch hp hd => exact ⟨rfl, hover _ id⟩
  | expand s r call x body watch hp hx => exact ⟨rfl, hover _ (startExpand_not_listens body)⟩
  | sent s r call x verdict watch hp hx => exact ⟨rfl, hover _ id⟩
  | send s r call x y next watch hp hx hf hroom =>
    refine ⟨rfl, Or.imp id fun hl => ?_⟩
    rw [hp]
    exact Handler.Listens.of_sends hx hl
  | refuse s r call x y next watch hp hx hf => exact ⟨rfl, hover _ id⟩
  | forward s r call x y rest watch hp hcur hf hq =>
    refine ⟨rfl, Or.imp id fun hl => ?_⟩
    rw [hp]
    exact hl
  | endStream s r call x result watch hp hx hcur hf hq => exact ⟨rfl, hover _ id⟩
  | giveUp s r call x result watch hp hx hcur hf => exact ⟨rfl, hover _ id⟩
  | writePart s r f n outbox hw hcur hpush => exact ⟨rfl, id⟩
  | write s r f n outbox hw hcur hpush => exact ⟨rfl, id⟩
  | failStream s r call x watch f n hp hcur hpush =>
    refine ⟨rfl, Or.imp id fun hl => ?_⟩
    rw [hp]
    exact hl
  | failLast s r frames f n hp hcur hpush => exact ⟨rfl, hover _ id⟩
  | beginLast s r f rest hp hcur => exact ⟨rfl, hover _ id⟩
  | endLast s r hp hcur => exact ⟨rfl, hover _ id⟩

end

/-- All along a recorded run the accounts are those of calls in the stream. -/
theorem tracked_run {capacity : Nat} {reads : Bool} {registry : Registry}
    {accounts : List Account} {h : History} {a : State × Registry}
    (hrun : Recorded (State.init capacity reads, registry) accounts h a) :
    Tracked h.received accounts a.1 := by
  induction hrun with
  | start =>
    refine ⟨⟨[], .nil _⟩, by simp, ?_⟩
    rintro (hq | hphase)
    · exact absurd rfl hq
    · exact hphase.elim
  | hear accounts h s r t r' clock got _ _ hgot ih => exact tracked_hear hgot ih
  | meet accounts h s r t r' clock got hrun _ hgot ih =>
    exact tracked_meet hgot (accounted_run hrun) ih
  | step accounts h s r t r' clock _ hstep hears hmeets ih =>
    have hmove := hstep.move
    obtain ⟨hbytes, hattends⟩ := attends_of_move clock s t r r' hmove hears hmeets
    exact ih.look hbytes hattends
  | receive accounts h s r bytes _ hopen ih =>
    have hbytes : (s.receive bytes).inbox.bytes = s.inbox.bytes ++ bytes :=
      Inbox.bytes_receive _ _
    obtain ⟨frames, hposition⟩ := ih.position
    refine ⟨⟨frames, hbytes ▸ hposition.append bytes⟩, fun c hc => (ih.all c hc).append bytes,
      fun ht => ?_⟩
    obtain ⟨front, c, rfl, hlast⟩ := ih.last ht
    refine ⟨front, c, rfl, ?_⟩
    show Front ClientFrame.decoder ((h.received ++ bytes).drop c.place) _ _
    rw [List.drop_append_of_le_length (ih.all c (by simp)).place, hbytes]
    exact hlast.append bytes
  | close accounts h s r _ ih => exact ⟨ih.position, ih.all, ih.last⟩
  | drop accounts h s r _ ih => exact ⟨ih.position, ih.all, ih.last⟩
  | share accounts h s r r' _ ih => exact ih

end EchoServer.Connection
