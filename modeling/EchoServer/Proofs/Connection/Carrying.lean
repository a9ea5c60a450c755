import EchoServer.Proofs.Connection.Accounted
import EchoServer.Proofs.Service.Injected

namespace EchoServer.Connection

open Service (decodeRequest)
open Wire (Received)

/-- A message that is a request, and does not ask for a failure. -/
def Harmless (body : Json) (q : EchoRequest) : Prop :=
  decodeRequest EchoRequest.decoder body = .ok q ∧ ∀ t, q.error = some t → t.code = .ok

theorem Harmless.resolve {body : Json} {q : EchoRequest} (h : Harmless body q) :
    Status.resolve q.error = .ok () := by
  cases hq : q.error with
  | none => rfl
  | some t => simp [Status.resolve, h.2 t hq, Code.isOk]

namespace Account

/-- A request of the call carries the status `s`, and these messages are due before the call fails
with it. -/
inductive Carries (c : Account) (s : Status) : List Json → Prop
  | echo (body r) (hm : Method.ofPath? c.path = some .echo)
      (hreads : c.reads = [asked body, .frame .halfClose])
      (hr : decodeRequest EchoRequest.decoder body = .ok r) (hs : r.error = some s) :
      Carries c s []
  | expand (body r) (hm : Method.ofPath? c.path = some .expand)
      (hreads : c.reads = [asked body, .frame .halfClose])
      (hr : decodeRequest EchoRequest.decoder body = .ok r) (hs : r.error = some s) :
      Carries c s ((Text.words r.content).map fun word => bodyOf (.ofContent word))
  | block (body r) (hm : Method.ofPath? c.path = some .block)
      (hreads : c.reads = [asked body, .frame .halfClose])
      (hr : decodeRequest BlockRequest.decoder body = .ok r) (hs : r.error = some s) :
      Carries c s []
  | collect (before requests body r more) (hm : Method.ofPath? c.path = some .collect)
      (hreads : c.reads = before.map asked ++ asked body :: more)
      (hbefore : List.Forall₂ Harmless before requests)
      (hr : decodeRequest EchoRequest.decoder body = .ok r) (hs : r.error = some s) :
      Carries c s []
  | chat (before requests body r more) (hm : Method.ofPath? c.path = some .chat)
      (hreads : c.reads = before.map asked ++ asked body :: more)
      (hbefore : List.Forall₂ Harmless before requests)
      (hr : decodeRequest EchoRequest.decoder body = .ok r) (hs : r.error = some s) :
      Carries c s (requests.map fun q => bodyOf (.ofContent q.content))

variable {c : Account} {s : Status} {sent messages : List Json} {o : Outcome (Option Json)}

theorem requestOf_asked {body : Json} {q : EchoRequest}
    (hq : decodeRequest EchoRequest.decoder body = .ok q) :
    requestOf (asked body) = some (.ok q) := congrArg some hq

/-- The requests of a stream up to the one that carries a status. -/
theorem requests_of_before {before : List Json} {requests : List EchoRequest} {body : Json}
    {r : EchoRequest} {more : List (Received ClientFrame)}
    (hreads : c.reads = before.map asked ++ asked body :: more)
    (hbefore : List.Forall₂ Harmless before requests)
    (hr : decodeRequest EchoRequest.decoder body = .ok r) :
    c.requests = requests.map .ok ++ .ok r :: more.filterMap requestOf := by
  have hall : (before.map asked).filterMap requestOf =
      requests.map (.ok : EchoRequest → Except Status EchoRequest) := by
    clear hreads
    induction hbefore with
    | nil => rfl
    | cons hq _ ih =>
      rw [List.map_cons, List.filterMap_cons_some (requestOf_asked hq.1), ih]
      rfl
  rw [Account.requests, hreads, List.filterMap_append, hall,
    List.filterMap_cons_some (requestOf_asked hr)]

theorem resolve_of_before {before : List Json} {requests : List EchoRequest}
    (hbefore : List.Forall₂ Harmless before requests) :
    ∀ q ∈ requests, Status.resolve q.error = .ok () := by
  induction hbefore with
  | nil => simp
  | cons hq _ ih => exact List.forall_mem_cons.mpr ⟨hq.resolve, ih⟩

/-- A single request that was read to its end is not refused. -/
theorem not_refused {body : Option Json} {b : Json} {got : Received ClientFrame}
    {status : Status} (hreads : c.reads = [asked b, .frame .halfClose])
    (hreads' : c.reads = body.toList.map asked ++ [got]) (h : Refusal body got status) : False := by
  have heq := hreads.symm.trans hreads'
  cases body with
  | none => simp at heq
  | some body =>
    obtain ⟨-, rfl⟩ : asked b = asked body ∧ .frame .halfClose = got := by simpa using heq
    cases h with
    | empty hb => cases hb

/-- The body of a single request is known from what was read. -/
theorem body_unique {body body' : Json} (h : c.reads = [asked body, .frame .halfClose])
    (h' : c.reads = [asked body', .frame .halfClose]) : body' = body := by
  have heq := h'.symm.trans h
  simpa [asked] using heq

/-- How a call ends whose single request was read to its end. -/
theorem Ends.of_single {m : Method} {body : Json} (h : c.Ends sent o)
    (hm : Method.ofPath? c.path = some m) (hone : readsOne m = true)
    (hreads : c.reads = [asked body, .frame .halfClose]) :
    (∃ g o', c.looked = some g ∧
      (Service.start m c.metadata body g.now g.registry).1 = .done o' ∧ sent = [] ∧
        o = o'.map some) ∨
    (∃ g n request o', c.looked = some g ∧
      (Service.start m c.metadata body g.now g.registry).1 = .delayed n request ∧
        (o' = Service.blockOutcome c.metadata request ∨ o' = .fail Service.cancelledInDelay) ∧
        sent = [] ∧ o = o'.map some) ∨
    (m = .expand ∧ ((∃ status, decodeRequest EchoRequest.decoder body = .error status ∧
        sent = [] ∧ o = .fail status) ∨
      ∃ r, decodeRequest EchoRequest.decoder body = .ok r ∧
        sent = (Service.expand c.metadata none r).1.map bodyOf ∧
        o = (Service.expand c.metadata none r).2.map fun _ => none)) := by
  cases h with
  | unknown hm' => cases hm.symm.trans hm'
  | refused m' body' got status hm' hone' hreads' h => exact (not_refused hreads hreads' h).elim
  | answered m' body' g o' hm' hone' hreads' hlooked hs =>
    obtain rfl := Option.some.inj (hm'.symm.trans hm)
    obtain rfl := body_unique hreads hreads'
    exact Or.inl ⟨g, o', hlooked, hs, rfl, rfl⟩
  | delayed m' body' g n request o' hm' hone' hreads' hlooked hs ho =>
    obtain rfl := Option.some.inj (hm'.symm.trans hm)
    obtain rfl := body_unique hreads hreads'
    exact Or.inr (Or.inl ⟨g, n, request, o', hlooked, hs, ho, rfl, rfl⟩)
  | undecodable body' status hm' hreads' hr =>
    obtain rfl := Option.some.inj (hm'.symm.trans hm)
    obtain rfl := body_unique hreads hreads'
    exact Or.inr (Or.inr ⟨rfl, Or.inl ⟨status, hr, rfl, rfl⟩⟩)
  | expanded body' r hm' hreads' hr =>
    obtain rfl := Option.some.inj (hm'.symm.trans hm)
    obtain rfl := body_unique hreads hreads'
    exact Or.inr (Or.inr ⟨rfl, Or.inr ⟨r, hr, rfl, rfl⟩⟩)
  | collected bodies got hm' hreads' hlast =>
    obtain rfl := Option.some.inj (hm'.symm.trans hm)
    cases hone
  | chatted bodies got hm' hreads' hlast =>
    obtain rfl := Option.some.inj (hm'.symm.trans hm)
    cases hone

/-- How a call ends that takes a stream of requests. -/
theorem Ends.of_stream {m : Method} (h : c.Ends sent o) (hm : Method.ofPath? c.path = some m)
    (hone : readsOne m = false) :
    (m = .collect → sent = [] ∧
      o = (Service.collect c.metadata c.requests).map fun r => some (bodyOf r)) ∧
    (m = .chat → sent = (Service.chat c.metadata none c.requests).1.map bodyOf ∧
      o = (Service.chat c.metadata none c.requests).2.map fun _ => none) := by
  have hsame {m' : Method} (hm' : Method.ofPath? c.path = some m') : readsOne m' = false := by
    rw [← hone, Option.some.inj (hm.symm.trans hm')]
  cases h with
  | unknown hm' => cases hm.symm.trans hm'
  | refused m' body got status hm' hone' hreads h => cases hone'.symm.trans (hsame hm')
  | answered m' body g o' hm' hone' hreads hlooked hs => cases hone'.symm.trans (hsame hm')
  | delayed m' body g n request o' hm' hone' hreads hlooked hs ho =>
    cases hone'.symm.trans (hsame hm')
  | undecodable body status hm' hreads hr => cases hsame hm'
  | expanded body r hm' hreads hr => cases hsame hm'
  | collected bodies got hm' hreads hlast =>
    obtain rfl := Option.some.inj (hm'.symm.trans hm)
    exact ⟨fun _ => ⟨rfl, rfl⟩, fun hno => by cases hno⟩
  | chatted bodies got hm' hreads hlast =>
    obtain rfl := Option.some.inj (hm'.symm.trans hm)
    exact ⟨fun hno => (by cases hno), fun _ => ⟨rfl, rfl⟩⟩

/-- A call that carries a failure ends with it, behind the messages that are due before it; only a
call of `Block` may have been cancelled while it was held back. -/
theorem Ends.of_carries (h : c.Ends sent o) (hcarries : c.Carries s messages) (hs : s.code ≠ .ok)
    (hlooked : Method.ofPath? c.path = some .expand → c.looked = none) :
    blockOf sent o = ⟨messages, s, .empty⟩ ∨ Method.ofPath? c.path = some .block ∧
      blockOf sent o = ⟨[], Service.cancelledInDelay, .empty⟩ := by
  cases hcarries with
  | echo body r hm hreads hr he =>
    left
    rcases h.of_single hm rfl hreads with ⟨g, o', -, hstart, rfl, rfl⟩ |
      ⟨g, n, request, o', -, hstart, -⟩ | ⟨hexpand, -⟩
    · simp only [Service.start, Service.answer, hr, Service.echo_failure he hs] at hstart
      obtain rfl := Service.Answer.done.inj hstart
      rfl
    · simp only [Service.start, Service.answer, hr] at hstart
      cases hstart
    · cases hexpand
  | expand body r hm hreads hr he =>
    left
    rcases h.of_single hm rfl hreads with ⟨g, o', hg, -⟩ | ⟨g, n, request, o', hg, -⟩ |
      ⟨-, ⟨status, hundecodable, -⟩ | ⟨r', hr', rfl, rfl⟩⟩
    -- the answer to a single request looks at the registry, and a stream of responses does not
    · cases (hlooked hm).symm.trans hg
    · cases (hlooked hm).symm.trans hg
    · cases hr.symm.trans hundecodable
    · obtain rfl := Except.ok.inj (hr.symm.trans hr')
      rw [Service.expand_failure he hs, List.map_map]
      rfl
  | block body r hm hreads hr he =>
    rcases h.of_single hm rfl hreads with ⟨g, o', -, hstart, rfl, rfl⟩ |
      ⟨g, n, request, o', -, hstart, ho, rfl, rfl⟩ | ⟨hexpand, -⟩
    · left
      simp only [Service.start, hr] at hstart
      split at hstart
      · obtain rfl := Service.Answer.done.inj hstart
        rw [Service.blockOutcome_failure he hs]
        rfl
      · cases hstart
    · simp only [Service.start, hr] at hstart
      split at hstart
      · cases hstart
      -- held back: the delay has run off, or the call was cancelled before
      · obtain ⟨-, rfl⟩ := Service.Answer.delayed.inj hstart
        rcases ho with rfl | rfl
        · left
          rw [Service.blockOutcome_failure he hs]
          rfl
        · exact Or.inr ⟨hm, rfl⟩
    · cases hexpand
  | collect before requests body r more hm hreads hbefore hr he =>
    left
    obtain ⟨rfl, rfl⟩ := (h.of_stream hm rfl).1 rfl
    rw [requests_of_before hreads hbefore hr,
      Service.collect_failure _ _ _ (resolve_of_before hbefore) he hs]
    rfl
  | chat before requests body r more hm hreads hbefore hr he =>
    left
    obtain ⟨rfl, rfl⟩ := (h.of_stream hm rfl).2 rfl
    rw [requests_of_before hreads hbefore hr,
      Service.chat_failure _ _ _ (resolve_of_before hbefore) he hs, List.map_map]
    rfl

/-- A call of `Wait` with a request succeeds with the operation that it starts. -/
theorem Ends.of_wait {body : Json} {r : WaitRequest} (h : c.Ends sent o)
    (hm : Method.ofPath? c.path = some .wait) (hreads : c.reads = [asked body, .frame .halfClose])
    (hr : decodeRequest WaitRequest.decoder body = .ok r) :
    ∃ g, c.looked = some g ∧ blockOf sent o =
      ⟨[Service.responseBody (g.registry.wait r g.now).1.toJson], .ok,
        c.metadata.echoTrailers .empty⟩ := by
  rcases h.of_single hm rfl hreads with ⟨g, o', hg, hstart, rfl, rfl⟩ |
    ⟨g, n, request, o', -, hstart, -⟩ | ⟨hexpand, -⟩
  · simp only [Service.start, hr, Service.wait] at hstart
    obtain rfl := Service.Answer.done.inj hstart
    exact ⟨g, hg, rfl⟩
  · simp only [Service.start, hr, Service.wait] at hstart
    cases hstart
  · cases hexpand

/-- A call of `GetOperation` shows the operation of that name. -/
theorem Ends.of_getOperation {body : Json} {r : GetOperationRequest} (h : c.Ends sent o)
    (hm : Method.ofPath? c.path = some .getOperation)
    (hreads : c.reads = [asked body, .frame .halfClose])
    (hr : decodeRequest GetOperationRequest.decoder body = .ok r) :
    ∃ g, c.looked = some g ∧ ∀ p, g.registry.find? r.name = some p → blockOf sent o =
      ⟨[Service.responseBody (p.snapshot r.name g.now).toJson], .ok,
        c.metadata.echoTrailers .empty⟩ := by
  rcases h.of_single hm rfl hreads with ⟨g, o', hg, hstart, rfl, rfl⟩ |
    ⟨g, n, request, o', -, hstart, -⟩ | ⟨hexpand, -⟩
  · refine ⟨g, hg, fun p hp => ?_⟩
    simp only [Service.start, Service.answer, hr, Service.getOperation, Registry.get, hp] at hstart
    obtain rfl := Service.Answer.done.inj hstart
    rfl
  · simp only [Service.start, Service.answer, hr] at hstart
    cases hstart
  · cases hexpand

/-- The same was read, but for statuses that ask for nothing. -/
inductive ReadsAlike (m : Method) : Received ClientFrame → Received ClientFrame → Prop
  | message (body body') (h : Service.Alike m body body') :
      ReadsAlike m (.frame (.message body)) (.frame (.message body'))
  | other (got) (h : ∀ body, got ≠ asked body) : ReadsAlike m got got

/-- The accounts of two calls of the method that differ only in statuses that ask for nothing. -/
structure Alike (m : Method) (c c' : Account) : Prop where
  path : c'.path = c.path
  metadata : c'.metadata = c.metadata
  looked : c'.looked = c.looked
  reads : List.Forall₂ (ReadsAlike m) c.reads c'.reads

section
variable {m : Method}

theorem alike_of_asked {body : Json} {got' : Received ClientFrame}
    (h : ReadsAlike m (asked body) got') : ∃ body', got' = asked body' ∧
      Service.Alike m body body' := by
  unfold asked at h
  cases h with
  | message body body' h => exact ⟨body', rfl, h⟩
  | other got h => exact absurd rfl (h body)

theorem eq_of_other {got got' : Received ClientFrame} (h : ReadsAlike m got got')
    (hother : ∀ body, got ≠ asked body) : got' = got := by
  cases h with
  | message body body' h => exact absurd rfl (hother body)
  | other got h => rfl

/-- Messages and what stands behind them. -/
theorem alike_split {bodies : List Json} {got : Received ClientFrame}
    {reads' : List (Received ClientFrame)}
    (h : List.Forall₂ (ReadsAlike m) (bodies.map asked ++ [got]) reads') :
    ∃ bodies' got', reads' = bodies'.map asked ++ [got'] ∧
      List.Forall₂ (Service.Alike m) bodies bodies' ∧ ReadsAlike m got got' := by
  induction bodies generalizing reads' with
  | nil =>
    cases h with
    | cons hgot hnil =>
      cases hnil
      exact ⟨[], _, rfl, .nil, hgot⟩
  | cons body bodies ih =>
    cases h with
    | cons hbody hrest =>
      obtain ⟨body', rfl, halike⟩ := alike_of_asked hbody
      obtain ⟨bodies', got', rfl, hbodies, hgot⟩ := ih hrest
      exact ⟨body' :: bodies', got', rfl, .cons halike hbodies, hgot⟩

theorem alike_single {c' : Account} {body : Json} (halike : c.Alike m c')
    (hreads : c.reads = [asked body, .frame .halfClose]) :
    ∃ body', c'.reads = [asked body', .frame .halfClose] ∧ Service.Alike m body body' := by
  have hall := halike.reads
  rw [hreads, show [asked body, .frame .halfClose] = [body].map asked ++ [.frame .halfClose] from
    rfl] at hall
  obtain ⟨bodies', got', hreads', hbodies, hgot⟩ := alike_split hall
  obtain rfl := eq_of_other hgot fun b hb => by cases hb
  cases hbodies with
  | cons hbody hnil =>
    cases hnil
    exact ⟨_, hreads', hbody⟩

/-- The requests of a stream agree item by item. -/
theorem requests_alike {c' : Account} (hm : m = .collect ∨ m = .chat) (halike : c.Alike m c') :
    Service.AlikeItems c.requests c'.requests := by
  have hall : ∀ {reads reads' : List (Received ClientFrame)},
      List.Forall₂ (ReadsAlike m) reads reads' →
        Service.AlikeItems (reads.filterMap requestOf) (reads'.filterMap requestOf) := by
    intro reads reads' h
    induction h with
    | nil => exact .nil
    | @cons got got' xs ys hgot _ ih =>
      cases hgot with
      | message body body' h =>
        have hitem : (decodeRequest EchoRequest.decoder body).map EchoRequest.plain =
            (decodeRequest EchoRequest.decoder body').map EchoRequest.plain := by
          rcases hm with rfl | rfl <;> exact h
        exact .cons hitem ih
      | other h =>
        cases hrequest : requestOf got with
        | none => rwa [List.filterMap_cons_none hrequest, List.filterMap_cons_none hrequest]
        | some item =>
          rw [List.filterMap_cons_some hrequest, List.filterMap_cons_some hrequest]
          exact .cons rfl ih
  exact hall halike.reads

/-- What is refused of one is refused of the other. -/
theorem refusal_of_alike {body : Option Json} {bodies' : List Json}
    {got got' : Received ClientFrame} {status : Status}
    (hbodies : List.Forall₂ (Service.Alike m) body.toList bodies')
    (hgot : ReadsAlike m got got') (h : Refusal body got status) :
    ∃ body' : Option Json, bodies' = body'.toList ∧ Refusal body' got' status := by
  obtain ⟨body', rfl, hnone⟩ : ∃ body' : Option Json, bodies' = body'.toList ∧
      (body' = none ↔ body = none) := by
    cases body with
    | none =>
      cases hbodies
      exact ⟨none, rfl, Iff.rfl⟩
    | some b =>
      obtain ⟨b', bs, -, hnil, rfl⟩ := List.forall₂_cons_left_iff.mp hbodies
      cases hnil
      exact ⟨some b', rfl, by simp⟩
  refine ⟨body', rfl, ?_⟩
  cases h with
  | second b hb =>
    obtain ⟨b', rfl, -⟩ := alike_of_asked hgot
    exact .second b' fun h => hb (hnone.mp h)
  | empty hb =>
    obtain rfl := eq_of_other hgot fun b hb => by cases hb
    exact .empty (hnone.mpr hb)
  | cancelled =>
    obtain rfl := eq_of_other hgot fun b hb => by cases hb
    exact .cancelled
  | tooEarly path metadata =>
    obtain rfl := eq_of_other hgot fun b hb => by cases hb
    exact .tooEarly path metadata

/-- A stream that ended by itself did so in both. -/
theorem halfClose_of_alike {got got' : Received ClientFrame} (hgot : ReadsAlike m got got')
    (h : got = .frame .halfClose) : got' = .frame .halfClose := by
  rw [← h]
  refine eq_of_other hgot fun b hb => ?_
  cases h.symm.trans hb

end

/-- Calls whose requests differ only in statuses that ask for nothing end alike. -/
theorem Ends.of_alike {m : Method} {c' : Account} (h : c.Ends sent o)
    (hm : Method.ofPath? c.path = some m) (halike : c.Alike m c') : c'.Ends sent o := by
  have hm' : Method.ofPath? c'.path = some m := by rw [halike.path, hm]
  have hreads := halike.reads
  cases h with
  | unknown hno => cases hm.symm.trans hno
  | refused m₁ body got status hm₁ hone hr h =>
    obtain rfl := Option.some.inj (hm₁.symm.trans hm)
    rw [hr] at hreads
    obtain ⟨bodies', got', hr', hbodies, hgot⟩ := alike_split hreads
    obtain ⟨body', rfl, hrefusal⟩ := refusal_of_alike hbodies hgot h
    exact .refused _ body' got' status hm' hone hr' hrefusal
  | answered m₁ body g o hm₁ hone hr hlooked hs =>
    obtain rfl := Option.some.inj (hm₁.symm.trans hm)
    obtain ⟨body', hr', hbody⟩ := alike_single halike hr
    refine .answered _ body' g o hm' hone hr' (halike.looked.trans hlooked) ?_
    rw [halike.metadata]
    rcases Service.start_of_alike g.now g.registry hbody with hsame |
      ⟨n, request, request', hdelayed, -⟩
    · rw [hsame, hs]
    · cases hs.symm.trans hdelayed
  | delayed m₁ body g n request o hm₁ hone hr hlooked hs ho =>
    obtain rfl := Option.some.inj (hm₁.symm.trans hm)
    obtain ⟨body', hr', hbody⟩ := alike_single halike hr
    rcases Service.start_of_alike g.now g.registry hbody with hsame |
      ⟨n', request', request'', hdelayed, hdelayed', houtcome⟩
    · refine .delayed _ body' g n request o hm' hone hr' (halike.looked.trans hlooked) ?_ ?_
      · rw [halike.metadata, hsame, hs]
      · rwa [halike.metadata]
    · obtain ⟨rfl, rfl⟩ := Service.Answer.delayed.inj (hs.symm.trans hdelayed)
      refine .delayed _ body' g n request'' o hm' hone hr' (halike.looked.trans hlooked) ?_ ?_
      · rw [halike.metadata, hdelayed']
      · rwa [halike.metadata, houtcome]
  | undecodable body status hm₁ hr hs =>
    obtain rfl := Option.some.inj (hm₁.symm.trans hm)
    obtain ⟨body', hr', hbody⟩ := alike_single halike hr
    rcases Service.cases_of_map_eq hbody with ⟨t, ht, ht'⟩ | ⟨a, b, ha, -⟩
    · obtain rfl := Except.error.inj (hs.symm.trans ht)
      exact .undecodable body' status hm' hr' ht'
    · cases hs.symm.trans ha
  | expanded body r hm₁ hr hs =>
    obtain rfl := Option.some.inj (hm₁.symm.trans hm)
    obtain ⟨body', hr', hbody⟩ := alike_single halike hr
    rcases Service.cases_of_map_eq hbody with ⟨t, ht, -⟩ | ⟨a, b, ha, hb, hab⟩
    · cases hs.symm.trans ht
    · obtain rfl := Except.ok.inj (hs.symm.trans ha)
      have hsame : Service.expand c'.metadata none b = Service.expand c.metadata none r := by
        rw [halike.metadata, ← Service.expand_plain b, ← hab, Service.expand_plain]
      rw [← hsame]
      exact .expanded body' b hm' hr' hb
  | collected bodies got hm₁ hr hlast =>
    obtain rfl := Option.some.inj (hm₁.symm.trans hm)
    rw [hr] at hreads
    obtain ⟨bodies', got', hr', -, hgot⟩ := alike_split hreads
    have hsame : Service.collect c'.metadata c'.requests =
        Service.collect c.metadata c.requests := by
      rw [halike.metadata, Service.collect_of_alike (requests_alike (Or.inl rfl) halike)]
    rw [← hsame] at hlast ⊢
    exact .collected bodies' got' hm' hr'
      (hlast.imp_left (halfClose_of_alike hgot))
  | chatted bodies got hm₁ hr hlast =>
    obtain rfl := Option.some.inj (hm₁.symm.trans hm)
    rw [hr] at hreads
    obtain ⟨bodies', got', hr', -, hgot⟩ := alike_split hreads
    have hsame : Service.chat c'.metadata none c'.requests =
        Service.chat c.metadata none c.requests := by
      rw [halike.metadata, Service.chat_of_alike (requests_alike (Or.inr rfl) halike)]
    rw [← hsame] at hlast ⊢
    exact .chatted bodies' got' hm' hr'
      (hlast.imp_left (halfClose_of_alike hgot))

end Account
end EchoServer.Connection
