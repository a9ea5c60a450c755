import EchoServer.Proofs.Connection.Registering

namespace EchoServer.Connection

open Wire (Inbox Received)

structure Session where
  accounts : List Account
  history : History
  state : State

namespace Session

def start (streamBuffer : Nat) : Session := ⟨[], .empty, .init streamBuffer true⟩

/-- The session is on record from its beginning. -/
def On (streamBuffer : Nat) (r : Registry) (x : Session) : Prop :=
  Recorded (State.init streamBuffer true, .empty) x.accounts x.history (x.state, r)

/-- What the peer does. -/
inductive News (x : Session) : Session → Prop
  | received (bytes) (hopen : x.state.inbox.closed = false) :
      News x { x with history := { x.history with received := x.history.received ++ bytes },
                      state := x.state.receive bytes }
  | inputClosed : News x { x with state := x.state.closeInput }
  | dropped : News x { x with state := x.state.drop }

/-- What the server does about the connection. -/
inductive Next (clock : Clock) (r : Registry) (x : Session) : Session → Registry → Prop
  | hear (t r' got) (hstep : Step clock (x.state, r) (t, r')) (hgot : Hears x.state got t) :
      Next clock r x ⟨x.accounts.modifyLast (·.read got), x.history.step clock r x.state t, t⟩ r'
  | meet (t r' got) (hstep : Step clock (x.state, r) (t, r')) (hgot : Meets x.state got t) :
      Next clock r x ⟨x.accounts ++ opened (x.history.received.length - t.inbox.size) got,
        x.history.step clock r x.state t, t⟩ r'
  | step (t r') (hstep : Step clock (x.state, r) (t, r')) (hears : ∀ got, ¬ Hears x.state got t)
      (hmeets : ∀ got, ¬ Meets x.state got t) :
      Next clock r x ⟨look x.state.queued x.accounts (lookedAt clock r x.state t),
        x.history.step clock r x.state t, t⟩ r'

section
variable {streamBuffer : Nat} {clock : Clock} {x y : Session} {r r' : Registry} {t : State}

theorem on_start (streamBuffer : Nat) (r : Registry) : (start streamBuffer).On streamBuffer r :=
  .share [] .empty _ .empty r .start

/-- What others do to the registry is nothing to a session. -/
theorem On.share (h : x.On streamBuffer r) (r' : Registry) : x.On streamBuffer r' :=
  Recorded.share x.accounts x.history x.state r r' h

theorem On.news (h : x.On streamBuffer r) (hnews : x.News y) : y.On streamBuffer r := by
  cases hnews with
  | received bytes hopen => exact .receive x.accounts x.history x.state r bytes h hopen
  | inputClosed => exact .close x.accounts x.history x.state r h
  | dropped => exact .drop x.accounts x.history x.state r h

theorem On.next (h : x.On streamBuffer r) (hnext : x.Next clock r y r') : y.On streamBuffer r' := by
  cases hnext with
  | hear t r' got hstep hgot =>
    exact .hear x.accounts x.history x.state r t r' clock got h hstep hgot
  | meet t r' got hstep hgot =>
    exact .meet x.accounts x.history x.state r t r' clock got h hstep hgot
  | step t r' hstep hears hmeets =>
    exact .step x.accounts x.history x.state r t r' clock h hstep hears hmeets

theorem Next.step_state (hnext : x.Next clock r y r') : Step clock (x.state, r) (y.state, r') := by
  cases hnext with
  | hear t r' got hstep hgot => exact hstep
  | meet t r' got hstep hgot => exact hstep
  | step t r' hstep hears hmeets => exact hstep

/-- Whatever the server does can be put on record. -/
theorem exists_next (hstep : Step clock (x.state, r) (t, r')) :
    ∃ y, x.Next clock r y r' ∧ y.state = t := by
  by_cases hears : ∃ got, Hears x.state got t
  · obtain ⟨got, hgot⟩ := hears
    exact ⟨_, .hear t r' got hstep hgot, rfl⟩
  · by_cases hmeets : ∃ got, Meets x.state got t
    · obtain ⟨got, hgot⟩ := hmeets
      exact ⟨_, .meet t r' got hstep hgot, rfl⟩
    · exact ⟨_, .step t r' hstep (fun got hgot => hears ⟨got, hgot⟩)
        fun got hgot => hmeets ⟨got, hgot⟩, rfl⟩

/-- What is done about a connection changes the registry as its accounts say. -/
theorem operationsOf_next (h : x.On streamBuffer r) (hnext : x.Next clock r y r') :
    r' = r.run (registeredIn clock r x.state y.state) ∧
    operationsOf y.accounts =
      operationsOf x.accounts ++ r.begun (registeredIn clock r x.state y.state) := by
  have haccounted : Accounted x.accounts x.state := accounted_run h
  have hunlooked : Unlooked x.accounts x.state := unlooked_run h
  refine ⟨registry_of_move hnext.step_state.move, ?_⟩
  -- who reads a frame does not look at the registry, and its accounts register nothing more
  have hnone (hlook : lookedAt clock r x.state y.state = [])
      (hsame : operationsOf y.accounts = operationsOf x.accounts) :
      operationsOf y.accounts =
        operationsOf x.accounts ++ r.begun (registeredIn clock r x.state y.state) := by
    rw [hsame, registeredIn, hlook]
    exact (List.append_nil _).symm
  cases hnext with
  | hear t r' got hstep hgot =>
    exact hnone (lookedAt_of_hears clock r hgot) (operationsOf_hear hgot haccounted hunlooked)
  | meet t r' got hstep hgot =>
    exact hnone (lookedAt_of_meets clock r hgot) (operationsOf_meet _)
  | step t r' hstep hears hmeets => exact operationsOf_look haccounted hunlooked

/-- What a session has written, call by call. The calls without a reply were given up while their
requests were read, or were put aside. -/
structure Transcript (x : Session) (calls : List (Account × Block)) : Prop where
  accounts : ∃ rest, x.accounts = calls.map (·.1) ++ rest ∧ ∀ c ∈ rest, ¬ c.Due
  yields : ∀ p ∈ calls, p.1.Yields p.2
  written : x.state.outbox.written = calls.flatMap fun p => p.2.frames

theorem exists_transcript (h : x.On streamBuffer r) (hgone : x.state.outbox.gone = false)
    (hover : x.state.BetweenCalls) : ∃ calls, x.Transcript calls := by
  obtain ⟨taken, front, rest, hbooked, rfl, ⟨blocks, hyields, hwritten⟩, hcut⟩ :=
    cleared_run h hgone hover
  have hlength : front.length = blocks.length := hyields.length_eq
  refine ⟨front.zip blocks, ?_, ?_, ?_⟩
  · rw [List.map_fst_zip (Nat.le_of_eq hlength)]
    have hrest : ∀ c ∈ rest, ¬ c.Due := fun c hc => Account.not_due_of_cutOff (hcut c hc)
    -- behind the calls that were given up there is the one that was put aside, if there is one
    cases hq : x.state.queued with
    | none => exact ⟨rest, booked_none hbooked hq, hrest⟩
    | some call =>
      rw [hq] at hbooked
      obtain ⟨place, haccounts⟩ := hbooked
      refine ⟨rest ++ [.opening call.1 call.2 place], by simpa using haccounts, ?_⟩
      intro c hc
      rcases List.mem_append.mp hc with hc | hc
      · exact hrest c hc
      · rw [List.mem_singleton.mp hc]
        exact Account.not_due_opening _ _ _
  · intro p hp
    exact (List.forall₂_iff_zip.mp hyields).2 hp
  · calc x.state.outbox.written = blocks.flatMap Block.frames := hwritten
      _ = ((front.zip blocks).map Prod.snd).flatMap Block.frames := by
        rw [List.map_snd_zip (Nat.le_of_eq hlength.symm)]
      _ = (front.zip blocks).flatMap fun p => p.2.frames := List.flatMap_map _ _ _

/-- The calls of `Wait` that ended well are those that registered the operations. -/
theorem Transcript.answeredWaits {calls : List (Account × Block)} (h : x.Transcript calls) :
    (calls.filterMap fun p => answeredWait? p.1 p.2) =
      (operationsOf x.accounts).map fun o => Service.responseBody o.toJson := by
  obtain ⟨rest, haccounts, hrest⟩ := h.accounts
  have hnone : operationsOf rest = [] := by
    apply List.filterMap_eq_nil_iff.mpr
    intro c hc
    exact Account.operation?_of_not_due (hrest c hc)
  rw [haccounts, operationsOf_append, hnone, List.append_nil, operationsOf, List.filterMap_map,
    List.map_filterMap]
  apply List.filterMap_congr
  intro p hp
  exact answeredWait?_of_yields (h.yields p hp)

end
end Session
end EchoServer.Connection
