import EchoServer.Service.Unary

namespace EchoServer

open Service (Answer)

/-- A result that is no success in the guise of a failure. -/
def Honest {α : Type} (result : Except Status α) : Prop :=
  ∀ s, result = .error s → s.code ≠ .ok

theorem honest_ok {α : Type} (a : α) : Honest (.ok a : Except Status α) := fun _ h => by cases h

theorem honest_error {α : Type} (s : Status) (h : s.code ≠ .ok) :
    Honest (.error s : Except Status α) := by
  intro t ht
  obtain rfl := Except.error.inj ht
  exact h

theorem honest_bind {α β : Type} (r : Except Status α) (f : α → Except Status β) (hr : Honest r)
    (hf : ∀ a, Honest (f a)) : Honest (r.bind f) := by
  cases r with
  | ok a => exact hf a
  | error s => exact honest_error s (hr s rfl)

theorem honest_map {α β : Type} (f : α → β) (r : Except Status α) (hr : Honest r) :
    Honest (r.map f) := by
  cases r with
  | ok a => exact honest_ok (f a)
  | error s => exact honest_error s (hr s rfl)

/-- A status that means no failure is not resolved to a failure. -/
theorem honest_resolve (e : Option Status) : Honest (Status.resolve e) := by
  intro s hs
  unfold Status.resolve at hs
  split at hs
  · rename_i t
    by_cases ht : t.code = .ok
    · simp [ht, Code.isOk] at hs
    · simp only [Code.isOk, ht, decide_false, Bool.false_eq_true, if_false] at hs
      obtain rfl := Except.error.inj hs
      exact ht
  · cases hs

theorem honest_of {α : Type} (metadata : Metadata) (r : Except Status α) (hr : Honest r) :
    Honest (Outcome.of metadata r).result := by
  cases r with
  | ok a => exact honest_ok a
  | error s => exact hr

namespace Service

theorem honest_decodeRequest {α : Type} (item : Json.Decoder α) (body : Json) :
    Honest (decodeRequest item body) := by
  unfold decodeRequest
  split
  · exact honest_ok _
  · exact honest_error _ (by simp [undecodable, Status.of])

theorem honest_echo (metadata : Metadata) (r : EchoRequest) : Honest (echo metadata r).result :=
  honest_of metadata _ (honest_bind _ _ (honest_resolve r.error) fun _ => honest_ok _)

theorem honest_collectStep (contents : List String) (r : EchoRequest) :
    Honest (collectStep contents r) :=
  honest_bind _ _ (honest_resolve r.error) fun _ => honest_ok _

theorem honest_select (total : Nat) (size : Int) (token : String) :
    Honest (Page.select total size token) := by
  unfold Page.select
  split
  · exact honest_error _ (by decide)
  · refine honest_map _ _ ?_
    unfold Page.startOf
    split
    · exact honest_ok _
    · split
      · split
        · exact honest_ok _
        · exact honest_error _ (by simp [Page.badToken, Status.of])
      · exact honest_error _ (by simp [Page.badToken, Status.of])

theorem honest_pagedExpand (metadata : Metadata) (r : PagedExpandRequest) :
    Honest (pagedExpand metadata r).result :=
  honest_of metadata _ (honest_bind _ _ (honest_select _ _ _) fun _ => honest_ok _)

theorem honest_getOperation (metadata : Metadata) (now : Time.Timestamp) (name : String)
    (registry : Registry) : Honest (getOperation metadata now name registry).result := by
  refine honest_of metadata _ ?_
  unfold Registry.get
  split
  · exact honest_ok _
  · exact honest_error _ (by simp [Registry.unknownName, Status.of])

theorem honest_blockOutcome (metadata : Metadata) (r : BlockRequest) :
    Honest (blockOutcome metadata r).result := by
  have hverdict : Honest (blockVerdict r) :=
    honest_bind _ _ (honest_resolve r.error) fun _ => honest_ok _
  exact honest_map _ _ (honest_of metadata _ hverdict)

theorem honest_answer {α β : Type} (item : Json.Decoder α) (body : Json) (handler : α → Outcome β)
    (encode : β → Json) (o : Outcome Json) (hh : ∀ r, Honest (handler r).result)
    (h : answer item body handler encode = .done o) : Honest o.result := by
  unfold answer at h
  split at h
  · rename_i s hs
    obtain rfl : Outcome.fail s = o := by simpa using h
    exact honest_error s (honest_decodeRequest item body s hs)
  · rename_i r hr
    rw [← Answer.done.inj h]
    exact honest_map _ _ (hh r)

/-- The failures of a call with one request and one response are honest. -/
theorem honest_start (m : Method) (metadata : Metadata) (body : Json) (now : Time.Timestamp)
    (registry : Registry) (o : Outcome Json)
    (h : (start m metadata body now registry).1 = .done o) : Honest o.result := by
  cases m with
  | echo => exact honest_answer _ body (echo metadata) _ o (honest_echo metadata) h
  | pagedExpand =>
    exact honest_answer _ body (pagedExpand metadata) _ o (honest_pagedExpand metadata) h
  | pagedExpandLegacy =>
    exact honest_answer _ body (pagedExpandLegacy metadata) _ o
      (fun r => honest_pagedExpand metadata r.toPaged) h
  | getOperation =>
    exact honest_answer GetOperationRequest.decoder body
      (fun r => getOperation metadata now r.name registry) Operation.toJson o
      (fun r => honest_getOperation metadata now r.name registry) h
  | wait =>
    simp only [start] at h
    split at h
    · rename_i s hs
      obtain rfl : Outcome.fail s = o := by simpa using h
      exact honest_error s (honest_decodeRequest _ body s hs)
    · rename_i r hr
      have ho := Answer.done.inj h
      rw [← ho]
      exact honest_map _ _ (honest_of metadata _ (honest_ok _))
  | block =>
    simp only [start] at h
    split at h
    · rename_i s hs
      obtain rfl : Outcome.fail s = o := by simpa using h
      exact honest_error s (honest_decodeRequest _ body s hs)
    · rename_i r hr
      split at h
      · obtain rfl : blockOutcome metadata r = o := by simpa using h
        exact honest_blockOutcome metadata r
      · cases h
  | expand =>
    obtain rfl : Outcome.fail (notUnary .expand) = o := by simpa [start] using h
    exact honest_error _ (by decide)
  | collect =>
    obtain rfl : Outcome.fail (notUnary .collect) = o := by simpa [start] using h
    exact honest_error _ (by decide)
  | chat =>
    obtain rfl : Outcome.fail (notUnary .chat) = o := by simpa [start] using h
    exact honest_error _ (by decide)

end Service
end EchoServer
