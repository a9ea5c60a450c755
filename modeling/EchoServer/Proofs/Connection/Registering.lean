import EchoServer.Proofs.Connection.Waiting
import EchoServer.Proofs.Operation.Log

namespace EchoServer

open Time (Timestamp)

namespace Service

/-- The request of `Wait` that a body holds, if the method is `Wait` and the body can be decoded. -/
def registers? (m : Method) (body : Json) : Option WaitRequest :=
  if m = .wait then (decodeRequest WaitRequest.decoder body).toOption else none

/-- The calls on the registry, if it is changed at all, with which the work of a call starts. -/
def registering (m : Method) (body : Json) (now : Timestamp) : List Registry.Event :=
  (registers? m body).toList.map fun request => .wait request now

section
variable {m : Method} {metadata : Metadata} {body : Json} {now : Timestamp} {r : Registry}
  {request : WaitRequest}

theorem registers?_eq_some_iff : registers? m body = some request ↔
    m = .wait ∧ decodeRequest WaitRequest.decoder body = .ok request := by
  unfold registers?
  by_cases hm : m = .wait
  · cases hr : decodeRequest WaitRequest.decoder body <;> simp [hm, Except.toOption]
  · simp [hm]

/-- A request of `Wait` registers its operation, and the call ends with that. -/
theorem start_of_registers (h : registers? m body = some request) :
    start m metadata body now r =
      (.done (.of metadata (.ok (responseBody (r.wait request now).1.toJson))),
        (r.wait request now).2) := by
  obtain ⟨rfl, hr⟩ := registers?_eq_some_iff.mp h
  simp only [start, hr, wait]
  rfl

/-- Nothing else changes the registry. -/
theorem start_of_not_registers (metadata : Metadata) (now : Timestamp) (r : Registry)
    (h : registers? m body = none) : (start m metadata body now r).2 = r := by
  cases m with
  | wait =>
    cases hr : decodeRequest WaitRequest.decoder body with
    | ok request => cases h.symm.trans (registers?_eq_some_iff.mpr ⟨rfl, hr⟩)
    | error s => simp only [start, hr]
  | block =>
    simp only [start]
    split
    · rfl
    · split <;> rfl
  | _ => rfl

theorem registry_start (m : Method) (metadata : Metadata) (body : Json) (now : Timestamp)
    (r : Registry) : (start m metadata body now r).2 = r.run (registering m body now) := by
  unfold registering
  cases h : registers? m body with
  | none => exact start_of_not_registers metadata now r h
  | some request =>
    rw [start_of_registers h]
    rfl

theorem begun_registering (m : Method) (body : Json) (now : Timestamp) (r : Registry) :
    r.begun (registering m body now) =
      ((registers? m body).map fun request => (r.wait request now).1).toList := by
  unfold registering
  cases registers? m body <;> rfl

end
end Service

namespace Connection

open Wire (Inbox Received)

/-- The calls on the registry that a handler makes in a step, if they change it at all. -/
def registeredIn (clock : Clock) (r : Registry) (s t : State) : List Registry.Event :=
  (lookedAt clock r s t).flatMap fun g => match s.phase with
    | .work call (.request body) _ => Service.registering call.method body g.now
    | _ => []

section
variable {clock : Clock} {s t : State} {r r' : Registry}

theorem registeredIn_of_request {call : Call} {body : Json} {watch : Watch}
    (hp : s.phase = .work call (.request body) watch)
    (hlook : lookedAt clock r s t = [⟨clock.now, r⟩]) :
    registeredIn clock r s t = Service.registering call.method body clock.now := by
  simp [registeredIn, hlook, hp]

/-- Who reads a frame does not look at the registry. -/
theorem lookedAt_of_hears {got : Received ClientFrame} (clock : Clock) (r : Registry)
    (h : Hears s got t) : lookedAt clock r s t = [] := by
  cases h with
  | read k n inbox hbusy hk hpoll =>
    refine lookedAt_eq_nil clock r _ fun call body watch hp => ?_
    simp [State.reads?, hp] at hk

theorem lookedAt_of_meets {got : Received ClientFrame} (clock : Clock) (r : Registry)
    (h : Meets s got t) : lookedAt clock r s t = [] := by
  cases h with
  | idle n inbox hp hq hpoll =>
    refine lookedAt_eq_nil clock r _ fun call body watch hp' => ?_
    cases hp.symm.trans hp'
  | watch n call work inbox hp hpoll =>
    refine lookedAt_eq_nil clock r _ fun call' body watch hp' => ?_
    obtain ⟨rfl, rfl, -⟩ := Phase.work.inj (hp.symm.trans hp')
    exact ⟨_, _, _, rfl⟩

/-- Who does not answer a request does not change the registry. -/
theorem registry_of_move (h : Move clock (s, r) (t, r')) :
    r' = r.run (registeredIn clock r s t) := by
  have hkept (hno : lookedAt clock r s t = []) : r = r.run (registeredIn clock r s t) := by
    rw [registeredIn, hno]
    rfl
  cases h with
  | answer s r call body watch o r' hp hs =>
    have hlook : lookedAt clock r s { s with phase := finish (o.map some) } =
        [⟨clock.now, r⟩] := by
      simp [lookedAt, hp, finish]
    rw [registeredIn_of_request hp hlook, ← Service.registry_start _ call.metadata, hs]
  | delay s r call body watch n request r' hp hs =>
    have hlook : lookedAt clock r s
        { s with phase := .work call (.delay (clock.elapsed + n) request) watch } =
          [⟨clock.now, r⟩] := by
      simp [lookedAt, hp]
    rw [registeredIn_of_request hp hlook, ← Service.registry_start _ call.metadata, hs]
  | read s r n k got inbox hk hpoll =>
    rcases hears_or_meets hk hpoll with hgot | hgot
    · exact hkept (lookedAt_of_hears clock r hgot)
    · exact hkept (lookedAt_of_meets clock r hgot)
  | watch s r n call work got inbox hp hpoll =>
    exact hkept (lookedAt_of_meets clock r (.watch n call work inbox hp hpoll))
  | fetch s r n hr hp ha hn =>
    exact hkept (lookedAt_eq_nil clock r _ fun call body watch hp => ⟨call, body, watch, hp⟩)
  | writePart s r f n outbox hw hcur hpush =>
    exact hkept (lookedAt_eq_nil clock r _ fun call body watch hp => ⟨call, body, watch, hp⟩)
  | write s r f n outbox hw hcur hpush =>
    exact hkept (lookedAt_eq_nil clock r _ fun call body watch hp => ⟨call, body, watch, hp⟩)
  -- the others leave a phase that is not a request
  | _ =>
    refine hkept (lookedAt_eq_nil clock r _ fun call body watch hp => ?_)
    simp_all

/-- A call of `Wait` is answered: its operation is registered, and the call is to end with that. -/
def Registers (clock : Clock) (s t : State) (r r' : Registry) : Prop :=
  ∃ metadata body watch request, s.phase = .work ⟨.wait, metadata⟩ (.request body) watch ∧
    Service.decodeRequest WaitRequest.decoder body = .ok request ∧
    r' = (r.wait request clock.now).2 ∧
    t = { s with phase := finish ⟨.ok (some (Service.responseBody
      (r.wait request clock.now).1.toJson)), metadata.echoTrailers .empty⟩ }

theorem registers_of_move (h : Move clock (s, r) (t, r')) : r' = r ∨ Registers clock s t r r' := by
  cases h with
  | answer s r call body watch o r' hp hs =>
    cases hregisters : Service.registers? call.method body with
    | none =>
      have hsame := Service.start_of_not_registers call.metadata clock.now r hregisters
      rw [hs] at hsame
      exact Or.inl hsame
    | some request =>
      obtain ⟨hm, hr⟩ := Service.registers?_eq_some_iff.mp hregisters
      rw [Service.start_of_registers hregisters] at hs
      obtain ⟨ho, rfl⟩ := Prod.mk.inj hs
      obtain rfl := Service.Answer.done.inj ho
      obtain ⟨m, metadata⟩ := call
      obtain rfl : m = .wait := hm
      exact Or.inr ⟨metadata, body, watch, request, hp, hr, rfl, rfl⟩
  | delay s r call body watch n request r' hp hs =>
    cases hregisters : Service.registers? call.method body with
    | none =>
      have hsame := Service.start_of_not_registers call.metadata clock.now r hregisters
      rw [hs] at hsame
      exact Or.inl hsame
    | some request =>
      rw [Service.start_of_registers hregisters] at hs
      cases hs
  | _ => exact Or.inl rfl

end

namespace Account

/-- The operation that the call has registered, if it has registered one. -/
def operation? (c : Account) : Option Operation :=
  match c.looked, c.reads with
  | some g, [.frame (.message body), .frame .halfClose] =>
    ((Method.ofPath? c.path).bind (Service.registers? · body)).map
      fun request => (g.registry.wait request g.now).1
  | _, _ => none

section
variable {c : Account} {m : Method} {body : Json} {g : Reading} {o : Operation}

theorem operation?_of_looked (hlooked : c.looked = some g)
    (hreads : c.reads = [asked body, .frame .halfClose]) (hm : Method.ofPath? c.path = some m) :
    c.operation? =
      (Service.registers? m body).map fun request => (g.registry.wait request g.now).1 := by
  simp only [operation?, hlooked, hreads, hm, asked, Option.bind_some]

theorem operation?_of_unlooked (h : c.looked = none) : c.operation? = none := by
  simp only [operation?, h]

/-- Only a call of `Wait` that was read to its end has registered an operation. -/
theorem exists_of_operation? (h : c.operation? = some o) :
    Method.ofPath? c.path = some .wait ∧ ∃ body g request, c.looked = some g ∧
      c.reads = [asked body, .frame .halfClose] ∧
      Service.decodeRequest WaitRequest.decoder body = .ok request ∧
      (g.registry.wait request g.now).1 = o := by
  unfold operation? at h
  split at h
  · rename_i g body hlooked hreads
    obtain ⟨request, hrequest, ho⟩ := Option.map_eq_some_iff.mp h
    obtain ⟨m, hm, hregisters⟩ := Option.bind_eq_some_iff.mp hrequest
    obtain ⟨rfl, hr⟩ := Service.registers?_eq_some_iff.mp hregisters
    exact ⟨hm, body, g, request, hlooked, hreads, hr, ho⟩
  · cases h

theorem operation?_of_method (hm : Method.ofPath? c.path = some m) (hne : m ≠ .wait) :
    c.operation? = none := by
  apply Option.eq_none_iff_forall_not_mem.mpr
  intro o ho
  obtain ⟨hwait, -⟩ := exists_of_operation? ho
  exact hne (Option.some.inj (hm.symm.trans hwait))

theorem operation?_of_not_due (h : ¬ c.Due) : c.operation? = none := by
  apply Option.eq_none_iff_forall_not_mem.mpr
  intro o ho
  obtain ⟨hwait, body, g, request, -, hreads, -⟩ := exists_of_operation? ho
  exact h (Or.inl ⟨_, body, hwait, rfl, hreads⟩)

end
end Account

/-- The operations that some calls have registered. -/
def operationsOf (accounts : List Account) : List Operation :=
  accounts.filterMap Account.operation?

theorem operationsOf_append (front rest : List Account) :
    operationsOf (front ++ rest) = operationsOf front ++ operationsOf rest :=
  List.filterMap_append

theorem operationsOf_single (c : Account) : operationsOf [c] = c.operation?.toList := by
  unfold operationsOf
  cases h : c.operation? <;> simp [h]

/-- A call that was put aside has registered nothing. -/
theorem operationsOf_booked {accounts taken : List Account} {queued : Option (String × Metadata)}
    (h : Booked accounts taken queued) : operationsOf accounts = operationsOf taken := by
  cases queued with
  | none =>
    obtain rfl : accounts = taken := h
    rfl
  | some call =>
    obtain ⟨place, rfl⟩ := h
    rw [operationsOf_append, operationsOf_single]
    exact List.append_nil _

/-- The request of a call is being read, or waits for the answer to it. -/
def Phase.Asks : Phase → Prop
  | .gather _ _ => True
  | .work _ (.request _) _ => True
  | _ => False

/-- The running call has not looked at anything before it has its answer. -/
def Unlooked (accounts : List Account) (s : State) : Prop :=
  s.phase.Asks → ∀ front c, Booked accounts (front ++ [c]) s.queued → c.looked = none

section
variable {accounts : List Account} {s t : State} {got : Received ClientFrame} {clock : Clock}
  {r r' : Registry}

/-- The account that a connection has opened last is that of the running call, unless a call was
put aside. -/
theorem eq_of_booked {front front' : List Account} {c c' : Account}
    (h : Booked (front ++ [c]) (front' ++ [c']) none) : c' = c :=
  (List.cons.inj (List.append_inj' (id h) rfl).2).1.symm

theorem not_asks_onCollect (call : Call) (contents : List String) :
    ¬ (onCollect call contents got).Asks := by
  unfold onCollect
  split
  · exact id
  · split <;> exact id

/-- What is read for the running call is read for the last account. Either the single request of the
call is being read, or the call takes a stream of requests and is none of `Wait`. -/
theorem exists_hearer (hgot : Hears s got t) (haccounted : Accounted accounts s) :
    ∃ front c, accounts = front ++ [c] ∧ s.queued = none ∧ t.queued = none ∧
      (s.phase.Asks ∨ ¬ t.phase.Asks ∧ ∃ m, Method.ofPath? c.path = some m ∧ m ≠ .wait) := by
  obtain ⟨taken, hbooked, hstage⟩ := haccounted
  cases hgot with
  | read k n inbox hbusy hk hpoll =>
    unfold State.reads? at hk
    split at hk
    · rename_i hp
      exact absurd hp hbusy
    · rename_i call body hp
      obtain ⟨hq, -, c, ⟨-, -, front, rfl, -⟩, -⟩ := (stage_gather_iff hp).mp hstage
      exact ⟨front, c, booked_none hbooked hq, hq, hq, Or.inl (by rw [hp]; trivial)⟩
    -- `Collect` and `Chat` read on, and neither of them leads to a single request
    · rename_i call contents hp
      obtain rfl := Option.some.inj hk
      obtain ⟨hq, hm, c, bodies, ⟨hof, -, front, rfl, -⟩, -⟩ := (stage_collect_iff hp).mp hstage
      refine ⟨front, c, booked_none hbooked hq, hq, hq, Or.inr ⟨?_, _, hof.method, ?_⟩⟩
      · exact not_asks_onCollect call contents
      · rw [hm]
        decide
    · rename_i call x watch hp
      split at hk
      · rename_i hx
        obtain rfl := Option.some.inj hk
        obtain ⟨front, c, base, bodies, rfl, -, hstream⟩ := (stage_stream_iff hp).mp hstage
        obtain ⟨hm, -, hq⟩ := hstream.listens (by rw [hx]; trivial)
        refine ⟨front, c, booked_none hbooked hq, hq, hq, Or.inr ⟨id, _, hstream.isOf.method, ?_⟩⟩
        rw [hm]
        decide
      · cases hk
    · cases hk

theorem unlooked_startCall (path : String) (metadata : Metadata) (place : Nat)
    (hq : t.queued = none) : Unlooked (accounts ++ [.opening path metadata place]) t := by
  intro _ front c hbooked
  rw [hq] at hbooked
  rw [eq_of_booked hbooked]
  rfl

theorem unlooked_hear (hgot : Hears s got t) (haccounted : Accounted accounts s)
    (h : Unlooked accounts s) : Unlooked (accounts.modifyLast (·.read got)) t := by
  obtain ⟨front, c, rfl, hqs, hqt, hasks | ⟨hno, -⟩⟩ := exists_hearer hgot haccounted
  · intro _ front' c' hbooked
    rw [List.modifyLast_concat, hqt] at hbooked
    rw [eq_of_booked hbooked]
    exact h hasks front c (by rw [hqs]; rfl)
  · exact fun hasks => absurd hasks hno

theorem unlooked_meet (place : Nat) (hgot : Meets s got t) (haccounted : Accounted accounts s)
    (h : Unlooked accounts s) : Unlooked (accounts ++ opened place got) t := by
  cases hgot with
  | idle n inbox hp hq hpoll =>
    rcases call_or_other got with ⟨path, metadata, rfl⟩ | ⟨-, -, hidle | ⟨failure, hover⟩⟩
    · exact unlooked_startCall path metadata place hq
    · intro hasks
      change (onIdle got).Asks at hasks
      rw [hidle] at hasks
      exact hasks.elim
    · intro hasks
      change (onIdle got).Asks at hasks
      rw [hover] at hasks
      exact hasks.elim
  -- a call may be put aside behind the running one, whose account stays as it is
  | watch n call work inbox hp hpoll =>
    intro hasks front c hbooked
    obtain ⟨taken, -, hstage⟩ := haccounted
    have hq := queued_of_watch hp hstage
    have hasked : s.phase.Asks := by
      rw [hp]
      cases work with
      | request body => trivial
      | _ => exact hasks.elim
    apply h hasked front c
    rw [hq]
    change Booked _ _ ((onWatch got).2.or s.queued) at hbooked
    rcases call_or_other got with ⟨path, metadata, rfl⟩ | ⟨hopened, hput, -⟩
    · obtain ⟨place', heq⟩ := hbooked
      exact (List.append_inj' heq rfl).1
    · rw [hopened, List.append_nil, hput, hq] at hbooked
      exact hbooked

theorem unlooked_step (hmove : Move clock (s, r) (t, r')) (hears : ∀ got, ¬ Hears s got t)
    (hmeets : ∀ got, ¬ Meets s got t) (haccounted : Accounted accounts s)
    (h : Unlooked accounts s) :
    Unlooked (look s.queued accounts (lookedAt clock r s t)) t := by
  have hkept (hp : t.phase = s.phase) (hq : t.queued = s.queued) :
      Unlooked (look s.queued accounts (lookedAt clock r s t)) t := by
    have hnil : lookedAt clock r s t = [] :=
      lookedAt_eq_nil clock r t fun call body watch hp' => ⟨call, body, watch, hp.trans hp'⟩
    rw [hnil]
    intro hasks front c hbooked
    exact h (hp ▸ hasks) front c (hq ▸ hbooked)
  cases hmove with
  | fetch s r n hr hp ha hn => exact hkept rfl rfl
  | read s r n k got inbox hk hpoll =>
    exact (hears_or_meets hk hpoll).elim (fun h => absurd h (hears got))
      fun h => absurd h (hmeets got)
  | watch s r n call work got inbox hp hpoll =>
    exact absurd (.watch n call work inbox hp hpoll) (hmeets got)
  -- the call that was put aside has the last account
  | takeUp s r path metadata hp hq =>
    obtain ⟨taken, hbooked, -⟩ := haccounted
    rw [hq] at hbooked
    obtain ⟨place, rfl⟩ := hbooked
    have hnil : lookedAt clock r s { s with queued := none, phase := startCall path metadata } =
        [] := by
      simp [lookedAt, hp]
    rw [hnil]
    exact unlooked_startCall path metadata place rfl
  | writePart s r f n outbox hw hcur hpush => exact hkept rfl rfl
  | write s r f n outbox hw hcur hpush => exact hkept rfl rfl
  -- the others are past the request of their call, or end it
  | _ => exact fun hasks => hasks.elim

theorem unlooked_run {capacity : Nat} {reads : Bool} {registry : Registry} {h : History}
    {a : State × Registry}
    (hrun : Recorded (State.init capacity reads, registry) accounts h a) :
    Unlooked accounts a.1 := by
  induction hrun with
  | start => exact fun hasks => hasks.elim
  | hear accounts h s r t r' clock got hrun _ hgot ih =>
    exact unlooked_hear hgot (accounted_run hrun) ih
  | meet accounts h s r t r' clock got hrun _ hgot ih =>
    exact unlooked_meet _ hgot (accounted_run hrun) ih
  | step accounts h s r t r' clock hrun hstep hears hmeets ih =>
    have hmove := hstep.move
    exact unlooked_step hmove hears hmeets (accounted_run hrun) ih
  | receive accounts h s r bytes _ _ ih => exact ih
  | close accounts h s r _ ih => exact ih
  | drop accounts h s r _ ih => exact ih
  | share accounts h s r r' _ ih => exact ih

/-- What the running call reads registers nothing: as long as it reads it has not looked. -/
theorem operationsOf_hear (hgot : Hears s got t) (haccounted : Accounted accounts s)
    (h : Unlooked accounts s) :
    operationsOf (accounts.modifyLast (·.read got)) = operationsOf accounts := by
  obtain ⟨front, c, rfl, hq, -, hcall⟩ := exists_hearer hgot haccounted
  have hnone : c.operation? = none ∧ (c.read got).operation? = none := by
    rcases hcall with hasks | ⟨-, m, hm, hne⟩
    · have hlooked : c.looked = none := h hasks front c (by rw [hq]; rfl)
      exact ⟨Account.operation?_of_unlooked hlooked, Account.operation?_of_unlooked hlooked⟩
    · exact ⟨Account.operation?_of_method hm hne, Account.operation?_of_method hm hne⟩
  rw [List.modifyLast_concat, operationsOf_append, operationsOf_append, operationsOf_single,
    operationsOf_single, hnone.1, hnone.2]

/-- A call that begins has registered nothing. -/
theorem operationsOf_meet (place : Nat) :
    operationsOf (accounts ++ opened place got) = operationsOf accounts := by
  rw [operationsOf_append]
  unfold opened
  split
  · rw [operationsOf_single]
    exact List.append_nil _
  · exact List.append_nil _

/-- The handler of the running call registers what its account says then. -/
theorem operationsOf_look (haccounted : Accounted accounts s) (h : Unlooked accounts s) :
    operationsOf (look s.queued accounts (lookedAt clock r s t)) =
      operationsOf accounts ++ r.begun (registeredIn clock r s t) := by
  rcases lookedAt_cases clock r s t with hnil | ⟨call, body, watch, hp, hlook⟩
  · rw [registeredIn, hnil]
    exact (List.append_nil _).symm
  · obtain ⟨taken, hbooked, hstage⟩ := haccounted
    obtain ⟨-, -, c, ⟨hof, -, front, rfl, -⟩, hreads⟩ := (stage_request_iff hp).mp hstage
    have hlooked : c.looked = none := h (by rw [hp]; trivial) front c hbooked
    have hbefore : c.operation? = none := Account.operation?_of_unlooked hlooked
    -- the handler looks for the call that was taken up last, behind which one may be put aside
    let g : Reading := ⟨clock.now, r⟩
    let c' : Account := { c with looked := some g }
    have hafter : c'.operation? = (Service.registers? call.method body).map
        fun request => (r.wait request clock.now).1 :=
      Account.operation?_of_looked (c := c') (g := g) rfl hreads hof.method
    rw [hlook, operationsOf_booked hbooked, operationsOf_booked (booked_look _ hbooked),
      registeredIn_of_request hp hlook, Service.begun_registering, ← hafter]
    simp only [operationsOf_append, operationsOf_single, hbefore, Option.toList_none,
      List.append_nil]
    rfl

end

/-- The one message with which a call of `Wait` has ended well, if it has. -/
def answeredWait? (c : Account) (b : Block) : Option Json :=
  match b.bodies with
  | [body] => if Method.ofPath? c.path = some .wait ∧ b.status.code = .ok then some body else none
  | _ => none

section
variable {c : Account} {b : Block}

/-- A call of `Wait` ends well, and with its operation, exactly if it has registered one. -/
theorem Account.Yields.of_wait (h : c.Yields b) (hm : Method.ofPath? c.path = some .wait) :
    (∃ o, c.operation? = some o ∧
      b = ⟨[Service.responseBody o.toJson], .ok, c.metadata.echoTrailers .empty⟩) ∨
    (c.operation? = none ∧ b.status.code ≠ .ok) := by
  obtain ⟨sent, o, hends, rfl⟩ := h
  -- the operation is registered exactly if the call was read to its end and can be decoded
  by_cases hrequest : ∃ body request, c.reads = [asked body, .frame .halfClose] ∧
      Service.decodeRequest WaitRequest.decoder body = .ok request
  · obtain ⟨body, request, hreads, hr⟩ := hrequest
    obtain ⟨g, hlooked, hblock⟩ := hends.of_wait hm hreads hr
    refine Or.inl ⟨(g.registry.wait request g.now).1, ?_, hblock⟩
    rw [Account.operation?_of_looked hlooked hreads hm,
      Service.registers?_eq_some_iff.mpr ⟨rfl, hr⟩]
    rfl
  · right
    constructor
    · apply Option.eq_none_iff_forall_not_mem.mpr
      intro x hx
      obtain ⟨-, body, g, request, -, hreads, hr, -⟩ := Account.exists_of_operation? hx
      exact hrequest ⟨body, request, hreads, hr⟩
    · cases hresult : o.result with
      | error s =>
        rw [(blockOf_status sent o).2.1 s hresult]
        exact hends.proper.honest s hresult
      -- a call that succeeds was read to its end, and its request was decoded
      | ok x =>
        obtain ⟨m, bodies, hm', hreads, htakes, hone⟩ := hends.complete x hresult
        obtain rfl := Option.some.inj (hm'.symm.trans hm)
        obtain ⟨body, rfl⟩ := hone rfl
        obtain ⟨request, hr⟩ := htakes body (by simp)
        refine absurd ⟨body, request, hreads, ?_⟩ hrequest
        rw [Service.decodeRequest, hr]

theorem answeredWait?_of_yields (h : c.Yields b) :
    answeredWait? c b = c.operation?.map fun o => Service.responseBody o.toJson := by
  by_cases hm : Method.ofPath? c.path = some .wait
  · rcases h.of_wait hm with ⟨o, ho, rfl⟩ | ⟨hnone, hcode⟩
    · simp only [answeredWait?, hm, ho, Option.map_some]
      rfl
    · rw [hnone, answeredWait?]
      split <;> simp [hcode]
  · have hnone : c.operation? = none := by
      apply Option.eq_none_iff_forall_not_mem.mpr
      intro o ho
      exact hm (Account.exists_of_operation? ho).1
    rw [hnone, answeredWait?]
    split <;> simp [hm]

end

end Connection
end EchoServer
