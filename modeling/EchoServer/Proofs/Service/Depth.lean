import EchoServer.Proofs.Message.Request
import EchoServer.Proofs.Service.Success

namespace EchoServer

open Service (Answer)

/-- A status without details is not nested. -/
theorem Status.stored_of (code : Code) (message : String) : (Status.of code message).Stored 125 :=
  ⟨rfl, by simp [toJson, Status.of, Json.depth, Json.depthMembers, Json.int32]⟩

/-- A result whose failure is stored, and nested no deeper than a request can bring it. -/
def Moderate {α : Type} (result : Except Status α) : Prop :=
  ∀ s, result = .error s → s.Stored 125

section
variable {α β : Type}

theorem moderate_ok (a : α) : Moderate (.ok a : Except Status α) := fun _ h => by cases h

theorem moderate_error {s : Status} (h : s.Stored 125) :
    Moderate (.error s : Except Status α) := by
  intro t ht
  obtain rfl := Except.error.inj ht
  exact h

theorem moderate_of (code : Code) (message : String) :
    Moderate (.error (.of code message) : Except Status α) :=
  moderate_error (Status.stored_of code message)

theorem moderate_bind {r : Except Status α} {f : α → Except Status β} (hr : Moderate r)
    (hf : ∀ a, r = .ok a → Moderate (f a)) : Moderate (r.bind f) := by
  cases r with
  | ok a => exact hf a rfl
  | error s => exact moderate_error (hr s rfl)

theorem moderate_map (f : α → β) {r : Except Status α} (hr : Moderate r) : Moderate (r.map f) := by
  cases r with
  | ok a => exact moderate_ok (f a)
  | error s => exact moderate_error (hr s rfl)

theorem moderate_resolve {e : Option Status} (h : ∀ s, e = some s → s.Stored 125) :
    Moderate (Status.resolve e) := by
  intro s hs
  unfold Status.resolve at hs
  split at hs
  · split at hs
    · cases hs
    · obtain rfl := Except.error.inj hs
      exact h _ rfl
  · cases hs

end

/-- The body of a message that is stored, and nested no deeper than a reader allows, unless it is an
operation with an error that is nested as deep as can be. -/
structure BoundedBody (v : Json) : Prop where
  stored : v.canonical = v
  depth : v.depth ≤ 126 ∨ v.depth = 127 ∧ ∃ (o : Operation) (s : Status),
    v = Service.responseBody o.toJson ∧ o.result = some (.error s) ∧ s.toJson.depth = 125

theorem boundedBody_of_le {v : Json} (h : v.depth ≤ 126) : BoundedBody (Service.responseBody v) :=
  ⟨v.canonical_stored.1, Or.inl (Nat.le_trans v.canonical_stored.2 h)⟩

theorem EchoResponse.depth_toJson (r : EchoResponse) : r.toJson.depth = 1 := by
  simp [toJson, Severity.toJson, Json.depth, Json.depthMembers]

theorem PagedExpandResponse.depth_toJson_le (r : PagedExpandResponse) : r.toJson.depth ≤ 3 := by
  have hitems : Json.depthItems (r.responses.map EchoResponse.toJson) ≤ 1 := by
    refine (Json.depthItems_le_iff _ _).mpr fun v hv => ?_
    obtain ⟨x, -, rfl⟩ := List.mem_map.mp hv
    exact Nat.le_of_eq x.depth_toJson
  simp only [toJson, Json.depth, Json.depthMembers]
  omega

theorem BlockResponse.depth_toJson (r : BlockResponse) : r.toJson.depth = 1 := by
  simp [toJson, Json.depth, Json.depthMembers]

/-- An operation holds its error two containers down. -/
theorem Operation.depth_toJson_le (o : Operation) (n : Nat) (hn : 1 ≤ n)
    (h : ∀ s, o.result = some (.error s) → s.toJson.depth ≤ n) : o.toJson.depth ≤ n + 2 := by
  cases hr : o.result with
  | none =>
    simp [toJson, hr, Json.optionalMember, timeJson, Json.depth, Json.depthMembers]
  | some result =>
    cases result with
    | error s =>
      have hs := h s hr
      simp [toJson, hr, OperationResult.toJson, Json.optionalMember, timeJson, Json.depth,
        Json.depthMembers]
      omega
    | response r =>
      simp [toJson, hr, OperationResult.toJson, WaitResponse.toJson, Json.optionalMember, timeJson,
        Json.depth, Json.depthMembers]
      omega

theorem boundedBody_operation (o : Operation)
    (h : ∀ s, o.result = some (.error s) → s.Stored 125) :
    BoundedBody (Service.responseBody o.toJson) := by
  refine ⟨o.toJson.canonical_stored.1, ?_⟩
  by_cases hdeep : ∃ s, o.result = some (.error s) ∧ s.toJson.depth = 125
  · obtain ⟨s, hs, hdepth⟩ := hdeep
    have hle : (Service.responseBody o.toJson).depth ≤ 127 :=
      Nat.le_trans o.toJson.canonical_stored.2
        (o.depth_toJson_le 125 (by decide) fun s hs => (h s hs).depth)
    rcases Nat.le_or_eq_of_le_succ hle with hle | heq
    · exact Or.inl hle
    · exact Or.inr ⟨heq, o, s, rfl, hs, hdepth⟩
  · have hle : o.toJson.depth ≤ 126 := by
      refine o.depth_toJson_le 124 (by decide) fun s hs => ?_
      have hne : s.toJson.depth ≠ 125 := fun heq => hdeep ⟨s, hs, heq⟩
      have := (h s hs).depth
      omega
    exact Or.inl (Nat.le_trans o.toJson.canonical_stored.2 hle)

/-- The errors that the operations are to end with are stored, and nested no deeper than a request
can bring them. -/
def Registry.Shallow (r : Registry) : Prop :=
  ∀ p ∈ r.operations, ∀ s, p.2.request.error = some s → s.Stored 125

theorem PendingOperation.error_of_result {p : PendingOperation} {s : Status}
    (h : p.result = .error s) : p.request.error = some s := by
  unfold result at h
  split at h
  · rename_i t ht
    obtain rfl := OperationResult.error.inj h
    unfold Status.resolve at ht
    split at ht
    · split at ht
      · cases ht
      · exact congrArg some (Except.error.inj ht) ▸ ‹_›
    · cases ht
  · cases h

theorem PendingOperation.boundedBody_snapshot (p : PendingOperation) (name : String)
    (now : Time.Timestamp) (h : ∀ s, p.request.error = some s → s.Stored 125) :
    BoundedBody (Service.responseBody (p.snapshot name now).toJson) := by
  refine boundedBody_operation _ fun s hs => h s ?_
  simp only [snapshot] at hs
  split at hs
  · exact error_of_result (Option.some.inj hs)
  · cases hs

namespace Registry

theorem shallow_empty : empty.Shallow := fun p hp => by cases hp

/-- A wait registers the request that it is made with. -/
theorem Shallow.wait {r : Registry} {request : WaitRequest} (now : Time.Timestamp) (h : r.Shallow)
    (hrequest : ∀ s, request.error = some s → s.Stored 125) :
    (r.wait request now).2.Shallow := by
  intro p hp
  rcases List.mem_append.mp hp with hp | hp
  · exact h p (List.mem_filter.mp hp).1
  · obtain rfl := List.mem_singleton.mp hp
    exact hrequest

/-- A cleanup only forgets. -/
theorem Shallow.cleanup {r : Registry} (h : r.Shallow) (retention : Int) (now : Time.Timestamp) :
    (r.cleanup retention now).2.Shallow := by
  unfold Registry.cleanup
  split
  · exact h
  · exact fun p hp => h p (List.mem_filter.mp hp).1

theorem Shallow.find? {r : Registry} (h : r.Shallow) {name : String} {p : PendingOperation}
    (hp : r.find? name = some p) : ∀ s, p.request.error = some s → s.Stored 125 := by
  obtain ⟨x, hx, rfl⟩ := Option.map_eq_some_iff.mp hp
  exact h x (List.mem_of_find?_eq_some hx)

end Registry

namespace Service

theorem moderate_decodeRequest {α : Type} (item : Json.Decoder α) (body : Json) :
    Moderate (decodeRequest item body) := by
  unfold decodeRequest
  split
  · exact moderate_ok _
  · exact moderate_of _ _

/-- What a decoder gives of a body that was received. -/
theorem given_by_decodeRequest {α : Type} {item : Json.Decoder α} {P : Nat → α → Prop}
    (h : item.Gives P) {body : Json} {n : Nat} {r : α} (hbody : body.depth ≤ n)
    (hr : decodeRequest item body = .ok r) : P n r := by
  unfold decodeRequest at hr
  split at hr
  · rename_i a ha
    obtain rfl := Except.ok.inj hr
    exact h n _ _ a (by rwa [Json.Draft.depth_ofJson]) ha
  · cases hr

/-- An outcome whose body and failure are nested moderately. -/
structure Bounded (o : Outcome Json) : Prop where
  failure : Moderate o.result
  body : ∀ v, o.result = .ok v → BoundedBody v

section
variable {metadata : Metadata}

theorem bounded_fail {s : Status} (h : s.Stored 125) : Bounded (.fail s) :=
  ⟨moderate_error h, fun v hv => by cases hv⟩

theorem bounded_of {β : Type} {result : Except Status β} (spell : β → Json)
    (hfail : Moderate result) (hbody : ∀ b, result = .ok b → BoundedBody (responseBody (spell b))) :
    Bounded ((Outcome.of metadata result).map fun b => responseBody (spell b)) := by
  rw [Outcome.of_map]
  constructor
  · rw [Outcome.of_result]
    exact moderate_map _ hfail
  · intro v hv
    rw [Outcome.of_result] at hv
    obtain ⟨b, hb, rfl⟩ := exists_of_map_ok hv
    exact hbody b hb

theorem bounded_blockOutcome {r : BlockRequest}
    (h : ∀ s, r.error = some s → s.Stored 125) : Bounded (blockOutcome metadata r) := by
  refine bounded_of BlockResponse.toJson ?_ fun b _ => ?_
  · exact moderate_bind (moderate_resolve h) fun _ _ => moderate_ok _
  · exact boundedBody_of_le (by rw [b.depth_toJson]; decide)

theorem moderate_select (total : Nat) (size : Int) (token : String) :
    Moderate (Page.select total size token) := by
  unfold Page.select
  split
  · exact moderate_of _ _
  · refine moderate_map _ ?_
    unfold Page.startOf
    split
    · exact moderate_ok _
    · split
      · split
        · exact moderate_ok _
        · exact moderate_of _ _
      · exact moderate_of _ _

theorem bounded_pagedExpand (r : PagedExpandRequest) :
    Bounded ((pagedExpand metadata r).map fun b => responseBody b.toJson) := by
  refine bounded_of PagedExpandResponse.toJson ?_ fun b _ => ?_
  · exact moderate_bind (moderate_select _ _ _) fun _ _ => moderate_ok _
  · exact boundedBody_of_le (Nat.le_trans b.depth_toJson_le (by decide))

/-- What a call with one request comes to, or is delayed by. -/
structure AnswerBounded (a : Answer) : Prop where
  done : ∀ o, a = .done o → Bounded o
  delayed : ∀ n r, a = .delayed n r → ∀ s, r.error = some s → s.Stored 125

theorem answerBounded_done {o : Outcome Json} (h : Bounded o) : AnswerBounded (.done o) :=
  ⟨fun o' ho => by obtain rfl := Answer.done.inj ho; exact h, fun n r hn => by cases hn⟩

theorem answerBounded_answer {α β : Type} (item : Json.Decoder α) (body : Json)
    (handler : α → Outcome β) (spell : β → Json)
    (h : ∀ r, decodeRequest item body = .ok r →
      Bounded ((handler r).map fun b => responseBody (spell b))) :
    AnswerBounded (answer item body handler spell) := by
  unfold answer
  split
  · rename_i s hs
    exact answerBounded_done (bounded_fail (moderate_decodeRequest item body s hs))
  · rename_i r hr
    exact answerBounded_done (h r hr)

/-- The answer to a request that was received. -/
theorem answerBounded_start (m : Method) (body : Json) (now : Time.Timestamp) (registry : Registry)
    (hbody : body.depth ≤ 126) (hregistry : registry.Shallow) :
    AnswerBounded (start m metadata body now registry).1 ∧
      (start m metadata body now registry).2.Shallow := by
  cases m with
  | echo =>
    refine ⟨answerBounded_answer _ body (echo metadata) _ fun r hr => ?_, hregistry⟩
    have hgiven := given_by_decodeRequest EchoRequest.decoder_gives hbody hr
    refine bounded_of EchoResponse.toJson ?_ fun b _ => ?_
    · exact moderate_bind (moderate_resolve hgiven) fun _ _ =>
        moderate_ok _
    · exact boundedBody_of_le (by rw [b.depth_toJson]; decide)
  | pagedExpand =>
    exact ⟨answerBounded_answer _ body (pagedExpand metadata) _ fun r _ => bounded_pagedExpand r,
      hregistry⟩
  | pagedExpandLegacy =>
    exact ⟨answerBounded_answer _ body (pagedExpandLegacy metadata) _ fun r _ =>
      bounded_pagedExpand r.toPaged, hregistry⟩
  | getOperation =>
    refine ⟨answerBounded_answer GetOperationRequest.decoder body
      (fun r => getOperation metadata now r.name registry) Operation.toJson fun r _ => ?_,
      hregistry⟩
    refine bounded_of Operation.toJson ?_ fun o ho => ?_
    · unfold Registry.get
      split
      · exact moderate_ok _
      · exact moderate_of _ _
    · unfold Registry.get at ho
      split at ho
      · rename_i p hp
        obtain rfl := Except.ok.inj ho
        exact p.boundedBody_snapshot _ _ (hregistry.find? hp)
      · cases ho
  | wait =>
    simp only [start]
    split
    · rename_i s hs
      exact ⟨answerBounded_done (bounded_fail (moderate_decodeRequest _ body s hs)), hregistry⟩
    · rename_i r hr
      have hgiven := given_by_decodeRequest WaitRequest.decoder_gives hbody hr
      refine ⟨answerBounded_done ?_, hregistry.wait now hgiven⟩
      refine bounded_of Operation.toJson (moderate_ok _) fun o ho => ?_
      obtain rfl := Except.ok.inj ho
      exact PendingOperation.boundedBody_snapshot _ _ _ hgiven
  | block =>
    simp only [start]
    split
    · rename_i s hs
      exact ⟨answerBounded_done (bounded_fail (moderate_decodeRequest _ body s hs)), hregistry⟩
    · rename_i r hr
      have hgiven := given_by_decodeRequest BlockRequest.decoder_gives hbody hr
      split
      · exact ⟨answerBounded_done (bounded_blockOutcome hgiven), hregistry⟩
      · refine ⟨⟨fun o ho => (by cases ho), fun n r' hn s hs => ?_⟩, hregistry⟩
        obtain ⟨-, rfl⟩ := Answer.delayed.inj hn
        exact hgiven s hs
  | expand => exact ⟨answerBounded_done (bounded_fail (Status.stored_of _ _)), hregistry⟩
  | collect => exact ⟨answerBounded_done (bounded_fail (Status.stored_of _ _)), hregistry⟩
  | chat => exact ⟨answerBounded_done (bounded_fail (Status.stored_of _ _)), hregistry⟩

end

end Service
end EchoServer
