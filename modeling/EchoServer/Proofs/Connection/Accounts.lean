import EchoServer.Proofs.Connection.Blocks
import EchoServer.Proofs.Service.Success
import Mathlib.Data.List.ModifyLast

/-! An account says how a call was called, where in the stream its call frame ends, what was read
for it since, and what its handler looked at. A recorded run keeps the accounts beside the history.
-/
namespace EchoServer.Connection

open Wire (Inbox Received)

structure Account where
  path : String
  metadata : Metadata
  /-- How many bytes of the stream there are up to the end of the call frame. -/
  place : Nat
  /-- What was read for the call since. -/
  reads : List (Received ClientFrame)
  /-- What the handler looked at when it answered the request, if it has. -/
  looked : Option Reading

def Account.read (c : Account) (got : Received ClientFrame) : Account :=
  { c with reads := c.reads ++ [got] }

/-- A new account. -/
def Account.opening (path : String) (metadata : Metadata) (place : Nat) : Account :=
  { path, metadata, place, reads := [], looked := none }

/-- The account that a frame begins, if it is a call. -/
def opened (place : Nat) : Received ClientFrame → List Account
  | .frame (.call path metadata) => [.opening path metadata place]
  | _ => []

/-- Outside of calls and behind them, nothing but a call is of interest. -/
theorem call_or_other (got : Received ClientFrame) :
    (∃ path metadata, got = .frame (.call path metadata)) ∨
      (∀ place, opened place got = []) ∧ (onWatch got).2 = none ∧
        (onIdle got = .idle ∨ ∃ failure, onIdle got = .finished failure) := by
  cases got with
  | frame f =>
    cases f with
    | call path metadata => exact Or.inl ⟨path, metadata, rfl⟩
    | _ => exact Or.inr ⟨fun _ => rfl, rfl, Or.inl rfl⟩
  | _ => exact Or.inr ⟨fun _ => rfl, rfl, Or.inr ⟨_, rfl⟩⟩

/-- The accounts after the handler of the running call has looked at something. The running call
is the last one, or the last but one if a call was put aside. -/
def look (queued : Option (String × Metadata)) (accounts : List Account) :
    List Reading → List Account
  | [] => accounts
  | g :: _ => match queued with
    | none => accounts.modifyLast fun c => { c with looked := some g }
    | some _ =>
      accounts.dropLast.modifyLast (fun c => { c with looked := some g }) ++
        accounts.getLast?.toList

section
variable (s : State) (got : Received ClientFrame)

/-- The running call reads something for itself. -/
inductive Hears : State → Prop
  | read (k n inbox) (hbusy : s.phase ≠ .idle) (hk : s.reads? = some k)
      (hpoll : s.inbox.poll ClientFrame.decoder n = some (some got, inbox)) :
      Hears { s with inbox, phase := k got }

/-- The main loop meets something outside of calls, or a watcher behind the running call does. -/
inductive Meets : State → Prop
  | idle (n inbox) (hp : s.phase = .idle) (hq : s.queued = none)
      (hpoll : s.inbox.poll ClientFrame.decoder n = some (some got, inbox)) :
      Meets { s with inbox, phase := onIdle got }
  | watch (n call work inbox) (hp : s.phase = .work call work .on)
      (hpoll : s.inbox.poll ClientFrame.decoder n = some (some got, inbox)) :
      Meets { s with inbox, queued := (onWatch got).2.or s.queued,
                     phase := .work call work (onWatch got).1 }

end

/-- Who waits for a frame and gets something reads it for the running call, or meets it. -/
theorem hears_or_meets {s : State} {n : Nat} {k : Received ClientFrame → Phase}
    {got : Received ClientFrame} {inbox : Inbox} (hk : s.reads? = some k)
    (hpoll : s.inbox.poll ClientFrame.decoder n = some (some got, inbox)) :
    Hears s got { s with inbox, phase := k got } ∨
      Meets s got { s with inbox, phase := k got } := by
  by_cases hidle : s.phase = .idle
  · obtain ⟨hq, rfl⟩ : s.queued = none ∧ onIdle = k := by
      simpa [State.reads?, hidle] using hk
    exact Or.inr (.idle n inbox hidle hq hpoll)
  · exact Or.inl (.read k n inbox hidle hk hpoll)

/-- The runs of a connection from the state `start` with the accounts of its calls, the latest
last. -/
inductive Recorded (start : State × Registry) :
    List Account → History → State × Registry → Prop
  | start : Recorded start [] .empty start
  | hear (accounts h s r t r' clock got) (hrun : Recorded start accounts h (s, r))
      (hstep : Step clock (s, r) (t, r')) (hgot : Hears s got t) :
      Recorded start (accounts.modifyLast (·.read got)) (h.step clock r s t) (t, r')
  | meet (accounts h s r t r' clock got) (hrun : Recorded start accounts h (s, r))
      (hstep : Step clock (s, r) (t, r')) (hgot : Meets s got t) :
      Recorded start (accounts ++ opened (h.received.length - t.inbox.size) got)
        (h.step clock r s t) (t, r')
  | step (accounts h s r t r' clock) (hrun : Recorded start accounts h (s, r))
      (hstep : Step clock (s, r) (t, r')) (hears : ∀ got, ¬ Hears s got t)
      (hmeets : ∀ got, ¬ Meets s got t) :
      Recorded start (look s.queued accounts (lookedAt clock r s t)) (h.step clock r s t) (t, r')
  | receive (accounts h s r bytes) (hrun : Recorded start accounts h (s, r))
      (hopen : s.inbox.closed = false) :
      Recorded start accounts { h with received := h.received ++ bytes } (s.receive bytes, r)
  | close (accounts h s r) (hrun : Recorded start accounts h (s, r)) :
      Recorded start accounts h (s.closeInput, r)
  | drop (accounts h s r) (hrun : Recorded start accounts h (s, r)) :
      Recorded start accounts h (s.drop, r)
  | share (accounts h s r r') (hrun : Recorded start accounts h (s, r)) :
      Recorded start accounts h (s, r')

/-- A run with its accounts is a run. -/
theorem Recorded.run {start a : State × Registry} {accounts : List Account} {h : History}
    (hrun : Recorded start accounts h a) : Run start h a := by
  induction hrun with
  | start => exact .start
  | hear accounts h s r t r' clock got _ hstep _ ih => exact .step h s r t r' clock ih hstep
  | meet accounts h s r t r' clock got _ hstep _ ih => exact .step h s r t r' clock ih hstep
  | step accounts h s r t r' clock _ hstep _ _ ih => exact .step h s r t r' clock ih hstep
  | receive accounts h s r bytes _ hopen ih => exact .receive h s r bytes ih hopen
  | close accounts h s r _ ih => exact .close h s r ih
  | drop accounts h s r _ ih => exact .drop h s r ih
  | share accounts h s r r' _ ih => exact .share h s r r' ih

/-- Every run has its accounts. -/
theorem exists_recorded {start a : State × Registry} {h : History} (hrun : Run start h a) :
    ∃ accounts, Recorded start accounts h a := by
  induction hrun with
  | start => exact ⟨[], .start⟩
  | step h s r t r' clock _ hstep ih =>
    obtain ⟨accounts, ih⟩ := ih
    by_cases hears : ∃ got, Hears s got t
    · obtain ⟨got, hgot⟩ := hears
      exact ⟨_, .hear accounts h s r t r' clock got ih hstep hgot⟩
    · by_cases hmeets : ∃ got, Meets s got t
      · obtain ⟨got, hgot⟩ := hmeets
        exact ⟨_, .meet accounts h s r t r' clock got ih hstep hgot⟩
      · exact ⟨_, .step accounts h s r t r' clock ih hstep (fun got hgot => hears ⟨got, hgot⟩)
          fun got hgot => hmeets ⟨got, hgot⟩⟩
  | receive h s r bytes _ hopen ih =>
    obtain ⟨accounts, ih⟩ := ih
    exact ⟨accounts, .receive accounts h s r bytes ih hopen⟩
  | close h s r _ ih =>
    obtain ⟨accounts, ih⟩ := ih
    exact ⟨accounts, .close accounts h s r ih⟩
  | drop h s r _ ih =>
    obtain ⟨accounts, ih⟩ := ih
    exact ⟨accounts, .drop accounts h s r ih⟩
  | share h s r r' _ ih =>
    obtain ⟨accounts, ih⟩ := ih
    exact ⟨accounts, .share accounts h s r r' ih⟩

/-- What holds of a new account, and stays true when its call reads on and when a handler looks at
something, holds of all accounts of a run. -/
theorem Recorded.forall_accounts {start a : State × Registry} {accounts : List Account}
    {h : History} {P : Account → Prop} (hrun : Recorded start accounts h a)
    (hnew : ∀ path metadata place, P (.opening path metadata place))
    (hread : ∀ s got t c, Hears s got t → P c → P (c.read got))
    (hlook : ∀ accounts h clock s r t, Recorded start accounts h (s, r) →
      (∀ c ∈ accounts, P c) → ∀ c ∈ look s.queued accounts (lookedAt clock r s t), P c) :
    ∀ c ∈ accounts, P c := by
  induction hrun with
  | start => exact fun c hc => by cases hc
  | hear accounts h s r t r' clock got _ _ hgot ih =>
    rcases List.eq_nil_or_concat accounts with rfl | ⟨front, c, rfl⟩
    · exact ih
    · rw [List.concat_eq_append] at ih ⊢
      rw [List.modifyLast_concat]
      intro x hx
      rcases List.mem_append.mp hx with hx | hx
      · exact ih x (List.mem_append_left _ hx)
      · rw [List.mem_singleton.mp hx]
        exact hread s got t c hgot (ih c (by simp))
  | meet accounts h s r t r' clock got _ _ _ ih =>
    intro x hx
    rcases List.mem_append.mp hx with hx | hx
    · exact ih x hx
    · unfold opened at hx
      split at hx
      · rw [List.mem_singleton.mp hx]
        exact hnew _ _ _
      · cases hx
  | step accounts h s r t r' clock hrun _ _ _ ih => exact hlook accounts h clock s r t hrun ih
  | receive accounts h s r bytes _ _ ih => exact ih
  | close accounts h s r _ ih => exact ih
  | drop accounts h s r _ ih => exact ih
  | share accounts h s r r' _ ih => exact ih

/-- A message that was read. -/
def asked (body : Json) : Received ClientFrame := .frame (.message body)

def bodyOf (r : EchoResponse) : Json := Service.responseBody r.toJson

/-- Why a call that needs a single request is refused at what it reads next, having read the
request `body` or none. -/
inductive Refusal (body : Option Json) : Received ClientFrame → Status → Prop
  | second (b) (hb : body ≠ none) : Refusal body (asked b) secondRequest
  | empty (hb : body = none) : Refusal body (.frame .halfClose) noRequest
  | cancelled : Refusal body (.frame .cancel) cancelledByPeer
  | tooEarly (path metadata) : Refusal body (.frame (.call path metadata)) callTooEarly

namespace Account

/-- The requests of a stream, with the failure that it ends with if it does not end by itself. -/
def requests (c : Account) : List (Except Status EchoRequest) :=
  c.reads.filterMap requestOf

/-- The handler of the call is through, with this outcome: it got what was read for the call, and
sent these messages before its end. -/
inductive Ends (c : Account) : List Json → Outcome (Option Json) → Prop
  | unknown (hm : Method.ofPath? c.path = none) : Ends c [] (.fail (unknownMethod c.path))
  | refused (m body got status) (hm : Method.ofPath? c.path = some m) (hone : readsOne m = true)
      (hreads : c.reads = body.toList.map asked ++ [got]) (h : Refusal body got status) :
      Ends c [] (.fail status)
  | answered (m body g o) (hm : Method.ofPath? c.path = some m) (hone : readsOne m = true)
      (hreads : c.reads = [asked body, .frame .halfClose]) (hlooked : c.looked = some g)
      (hs : (Service.start m c.metadata body g.now g.registry).1 = .done o) :
      Ends c [] (o.map some)
  | delayed (m body g n request o) (hm : Method.ofPath? c.path = some m) (hone : readsOne m = true)
      (hreads : c.reads = [asked body, .frame .halfClose]) (hlooked : c.looked = some g)
      (hs : (Service.start m c.metadata body g.now g.registry).1 = .delayed n request)
      (ho : o = Service.blockOutcome c.metadata request ∨ o = .fail Service.cancelledInDelay) :
      Ends c [] (o.map some)
  | undecodable (body status) (hm : Method.ofPath? c.path = some .expand)
      (hreads : c.reads = [asked body, .frame .halfClose])
      (hr : Service.decodeRequest EchoRequest.decoder body = .error status) :
      Ends c [] (.fail status)
  | expanded (body r) (hm : Method.ofPath? c.path = some .expand)
      (hreads : c.reads = [asked body, .frame .halfClose])
      (hr : Service.decodeRequest EchoRequest.decoder body = .ok r) :
      Ends c ((Service.expand c.metadata none r).1.map bodyOf)
        ((Service.expand c.metadata none r).2.map fun _ => none)
  | collected (bodies : List Json) (got) (hm : Method.ofPath? c.path = some .collect)
      (hreads : c.reads = bodies.map asked ++ [got])
      (hlast : got = .frame .halfClose ∨
        ∃ s, (Service.collect c.metadata c.requests).result = .error s) :
      Ends c [] ((Service.collect c.metadata c.requests).map fun r => some (bodyOf r))
  | chatted (bodies : List Json) (got) (hm : Method.ofPath? c.path = some .chat)
      (hreads : c.reads = bodies.map asked ++ [got])
      (hlast : got = .frame .halfClose ∨
        ∃ s, (Service.chat c.metadata none c.requests).2.result = .error s) :
      Ends c ((Service.chat c.metadata none c.requests).1.map bodyOf)
        ((Service.chat c.metadata none c.requests).2.map fun _ => none)

/-- The call was read to its end: messages that are requests of the method, one of them if the
method takes a single request, and then `half_close`. -/
def Complete (c : Account) : Prop :=
  ∃ m bodies, Method.ofPath? c.path = some m ∧
    c.reads = bodies.map asked ++ [.frame .halfClose] ∧
    (∀ body ∈ bodies, Service.Takes m body) ∧ (readsOne m = true → ∃ body, bodies = [body])

end Account

section
variable {items : List (Except Status EchoRequest)}

/-- A fold over requests that may fail takes a failed request for its own failure. -/
theorem honest_foldlM {α : Type} (f : α → EchoRequest → Except Status α)
    (hf : ∀ a r, Honest (f a r)) (hitems : ∀ item ∈ items, Honest item) (a : α) :
    Honest (items.foldlM (fun acc item => item.bind (f acc)) a) := by
  induction items generalizing a with
  | nil => exact honest_ok a
  | cons item items ih =>
    have hitem : Honest (item.bind (f a)) :=
      honest_bind item (f a) (hitems item (by simp)) fun r => hf a r
    have hrest (b : α) : Honest (items.foldlM (fun acc item => item.bind (f acc)) b) :=
      ih (fun x hx => hitems x (by simp [hx])) b
    exact honest_bind _ _ hitem hrest

theorem ok_of_foldlM {α : Type} (f : α → EchoRequest → Except Status α) (a b : α)
    (h : items.foldlM (fun acc item => item.bind (f acc)) a = .ok b) :
    ∀ item ∈ items, ∃ r, item = .ok r := by
  induction items generalizing a with
  | nil => simp
  | cons item items ih =>
    cases hitem : item with
    | error s =>
      rw [List.foldlM_cons, hitem] at h
      cases h
    | ok r =>
      cases hr : f a r with
      | error s =>
        simp only [List.foldlM_cons, hitem, Except.bind, hr] at h
        cases h
      | ok a' =>
        simp only [List.foldlM_cons, hitem, Except.bind, hr] at h
        intro x hx
        rcases List.mem_cons.mp hx with rfl | hx
        · exact ⟨r, rfl⟩
        · exact ih a' h x hx

theorem honest_chatResponses (hitems : ∀ item ∈ items, Honest item) :
    Honest (Service.chatResponses none items).2 := by
  induction items with
  | nil => exact honest_ok ()
  | cons item items ih =>
    have hstep : Honest (item.bind Service.chatStep) :=
      honest_bind item _ (hitems item (by simp)) fun r =>
        honest_bind _ _ (honest_resolve r.error) fun _ => honest_ok _
    unfold Service.chatResponses
    cases hr : item.bind Service.chatStep with
    | error s => exact honest_error s (hstep s hr)
    | ok response => exact ih fun x hx => hitems x (by simp [hx])

theorem ok_of_chatResponses (h : (Service.chatResponses none items).2 = .ok ()) :
    ∀ item ∈ items, ∃ r, item = .ok r := by
  induction items with
  | nil => simp
  | cons item items ih =>
    unfold Service.chatResponses at h
    cases hr : item.bind Service.chatStep with
    | error s =>
      rw [hr] at h
      cases h
    | ok response =>
      rw [hr] at h
      intro x hx
      rcases List.mem_cons.mp hx with rfl | hx
      · cases hitem : x with
        | error s =>
          rw [hitem] at hr
          cases hr
        | ok r => exact ⟨r, rfl⟩
      · exact ih h x hx

/-- One more request for `Chat`, when those before it went well. -/
theorem chatResponses_snoc (item : Except Status EchoRequest) (responses : List EchoResponse)
    (h : Service.chatResponses none items = (responses, .ok ())) :
    Service.chatResponses none (items ++ [item]) =
      match item.bind Service.chatStep with
      | .ok response => (responses ++ [response], .ok ())
      | .error s => (responses, .error s) := by
  induction items generalizing responses with
  | nil =>
    obtain rfl : [] = responses := congrArg Prod.fst h
    simp only [List.nil_append, Service.chatResponses]
    cases item.bind Service.chatStep <;> rfl
  | cons first items ih =>
    rw [List.cons_append]
    unfold Service.chatResponses at h ⊢
    cases hr : first.bind Service.chatStep with
    | error s =>
      rw [hr] at h
      cases h
    | ok response =>
      simp only [hr, reduceCtorEq, if_false, Option.map_none] at h ⊢
      obtain ⟨hresponses, hrest⟩ := Prod.mk.inj h
      rw [ih _ (Prod.ext rfl hrest), ← hresponses]
      cases item.bind Service.chatStep <;> rfl

end

namespace Account

variable {c : Account} {sent : List Json} {o : Outcome (Option Json)}

theorem honest_requests (c : Account) : ∀ item ∈ c.requests, Honest item := by
  intro item hitem
  obtain ⟨got, -, hgot⟩ := List.mem_filterMap.mp hitem
  exact honest_requestOf got item hgot

/-- The trailers of a call go with its result, and it does not fail in the guise of success. -/
theorem Ends.proper (h : c.Ends sent o) : o.Proper c.metadata := by
  cases h with
  | unknown hm => exact Outcome.proper_fail _ (by simp [unknownMethod, Status.of])
  | refused m body got status hm hone hreads h =>
    have hstatus : status.code ≠ .ok := by cases h <;> decide
    exact Outcome.proper_fail _ hstatus
  | answered m body g o hm hone hreads hlooked hs =>
    exact (Service.proper_start m body g.now g.registry o hs).map some
  | delayed m body g n request o hm hone hreads hlooked hs ho =>
    rcases ho with rfl | rfl
    · exact (Service.proper_blockOutcome request).map some
    · exact (Outcome.proper_fail Service.cancelledInDelay (by decide)).map some
  | undecodable body status hm hreads hr =>
    exact Outcome.proper_fail _ (Service.honest_decodeRequest _ body status hr)
  | expanded body r hm hreads hr =>
    exact (Outcome.proper_of _ (honest_resolve r.error)).map _
  | collected bodies got hm hreads hlast =>
    have hfold := honest_foldlM Service.collectStep Service.honest_collectStep c.honest_requests []
    exact (Outcome.proper_of _ (honest_bind _ _ hfold fun _ => honest_ok _)).map _
  | chatted bodies got hm hreads hlast =>
    exact (Outcome.proper_of _ (honest_chatResponses c.honest_requests)).map _

/-- Messages that a stream takes without failing are requests, and nothing but `half_close` can
stand behind them. -/
theorem complete_of_requests {m : Method} {bodies : List Json} {got : Received ClientFrame}
    (hm : Method.ofPath? c.path = some m) (hone : readsOne m = false)
    (htakes : ∀ body, (∃ r, EchoRequest.decoder.ofJson body = .ok r) → Service.Takes m body)
    (hreads : c.reads = bodies.map asked ++ [got]) (hlast : got = .frame .halfClose)
    (hok : ∀ item ∈ c.requests, ∃ r, item = .ok r) : c.Complete := by
  refine ⟨m, bodies, hm, by rw [hreads, hlast], fun body hbody => htakes body ?_, fun h => ?_⟩
  · apply Classical.byContradiction
    intro hno
    obtain ⟨s, hs⟩ := Service.decodeRequest_of_undecodable hno
    have hread : asked body ∈ c.reads := by
      rw [hreads]
      exact List.mem_append_left _ (List.mem_map_of_mem hbody)
    have hmem : Except.error s ∈ c.requests :=
      List.mem_filterMap.mpr ⟨asked body, hread, congrArg some hs⟩
    obtain ⟨r, hr⟩ := hok _ hmem
    cases hr
  · rw [hone] at h
    cases h

theorem takes_expand {body : Json} {r : EchoRequest}
    (hr : Service.decodeRequest EchoRequest.decoder body = .ok r) :
    Service.Takes .expand body := by
  apply Classical.byContradiction
  intro hno
  obtain ⟨s, hs⟩ := Service.decodeRequest_of_undecodable hno
  cases hr.symm.trans hs

/-- A call that succeeds was read to its end. -/
theorem Ends.complete (h : c.Ends sent o) (x : Option Json) (hx : o.result = .ok x) :
    c.Complete := by
  have hsingle {m : Method} {body : Json} (hm : Method.ofPath? c.path = some m)
      (hreads : c.reads = [asked body, .frame .halfClose]) (htakes : Service.Takes m body) :
      c.Complete :=
    ⟨m, [body], hm, hreads, by simpa using htakes, fun _ => ⟨body, rfl⟩⟩
  have hmap {α : Type} {f : α → Option Json} {o' : Outcome α} (h : (o'.map f).result = .ok x) :
      ∃ a, o'.result = .ok a := by
    cases hr : o'.result with
    | ok a => exact ⟨a, rfl⟩
    | error s => simp [Outcome.map, hr, Except.map] at h
  cases h with
  | unknown hm => cases hx
  | refused m body got status hm hone hreads h => cases hx
  | answered m body g o hm hone hreads hlooked hs =>
    obtain ⟨a, ha⟩ := hmap hx
    exact hsingle hm hreads (Service.takes_of_start m body g.now g.registry o a hs ha)
  | delayed m body g n request o hm hone hreads hlooked hs ho =>
    exact hsingle hm hreads (Service.takes_of_delayed m body g.now g.registry n request hs)
  | undecodable body status hm hreads hr => cases hx
  | expanded body r hm hreads hr => exact hsingle hm hreads (takes_expand hr)
  | collected bodies got hm hreads hlast =>
    obtain ⟨a, ha⟩ := hmap hx
    have hgot : got = .frame .halfClose := by
      rcases hlast with hlast | ⟨s, hs⟩
      · exact hlast
      · cases hs.symm.trans ha
    refine complete_of_requests hm rfl (fun _ h => h) hreads hgot ?_
    rw [Service.collect, Outcome.of_result] at ha
    cases hfold : c.requests.foldlM (fun acc item => item.bind (Service.collectStep acc)) [] with
    | error s =>
      rw [hfold] at ha
      cases ha
    | ok contents => exact ok_of_foldlM _ _ _ hfold
  | chatted bodies got hm hreads hlast =>
    obtain ⟨a, ha⟩ := hmap hx
    have hgot : got = .frame .halfClose := by
      rcases hlast with hlast | ⟨s, hs⟩
      · exact hlast
      · cases hs.symm.trans ha
    refine complete_of_requests hm rfl (fun _ h => h) hreads hgot (ok_of_chatResponses ?_)
    simpa [Service.chat] using ha

/-- The call may have messages: it was read to its end, or it is one of `Chat`. -/
def Speaks (c : Account) : Prop := c.Complete ∨ Method.ofPath? c.path = some .chat

theorem Ends.speaks (h : c.Ends sent o) (hsent : sent ≠ []) : c.Speaks := by
  cases h with
  | expanded body r hm hreads hr =>
    refine Or.inl ⟨.expand, [body], hm, hreads, ?_, fun _ => ⟨body, rfl⟩⟩
    simpa using takes_expand hr
  | chatted bodies got hm hreads hlast => exact Or.inr hm
  | _ => exact absurd rfl hsent

/-- A call whose block has messages may have them. -/
theorem Ends.speaks_of_bodies (h : c.Ends sent o) (hne : (blockOf sent o).bodies ≠ []) :
    c.Speaks := by
  cases hr : o.result with
  | ok x => exact Or.inl (h.complete x hr)
  | error s =>
    have hbodies : (blockOf sent o).bodies = sent := by rw [blockOf, hr]
    exact h.speaks (hbodies ▸ hne)

end Account
end EchoServer.Connection
