import EchoServer.Proofs.Metadata
import EchoServer.Proofs.Service.Verdicts

namespace EchoServer

open Service (Answer)

namespace Metadata

/-- The trailers of a call that succeeds: a pair for each inbound value of the trailer key,
whatever the case of its key, in inbound order. -/
theorem entries_echoTrailers (m : Metadata) :
    (m.echoTrailers .empty).entries =
      (m.entries.filter fun p => lowerAscii p.1 = "showcase-trailer").map
        fun p => ("showcase-trailer", p.2) := by
  have hlower : lowerAscii trailerKey = "showcase-trailer" := by decide
  rw [entries_echoTrailers_onto, getAll, List.map_map]
  simp only [empty, List.nil_append, sameKey, hlower]
  rfl

end Metadata

namespace Outcome

variable {α β : Type} {metadata : Metadata}

@[simp] theorem of_result (r : Except Status α) : (Outcome.of metadata r).result = r := by
  cases r <;> rfl

theorem of_map (f : α → β) (r : Except Status α) :
    (Outcome.of metadata r).map f = .of metadata (r.map f) := by
  cases r <;> rfl

/-- The outcome of a call with this metadata whose trailers go with its result, and whose failures
do not look like success. -/
structure Proper (metadata : Metadata) (o : Outcome α) : Prop where
  eq_of : o = .of metadata o.result
  honest : Honest o.result

theorem proper_of (r : Except Status α) (h : Honest r) : (Outcome.of metadata r).Proper metadata :=
  ⟨by rw [of_result], by rw [of_result]; exact h⟩

theorem proper_fail (s : Status) (h : s.code ≠ .ok) :
    (Outcome.fail s : Outcome α).Proper metadata :=
  proper_of (.error s) (honest_error s h)

theorem Proper.map {o : Outcome α} (h : o.Proper metadata) (f : α → β) :
    (o.map f).Proper metadata := by
  rw [h.eq_of, of_map]
  exact proper_of _ (honest_map f _ h.honest)

theorem Proper.entries_of_ok {o : Outcome α} (h : o.Proper metadata) (a : α)
    (ha : o.result = .ok a) :
    o.trailers.entries =
      (metadata.entries.filter fun p => Metadata.lowerAscii p.1 = "showcase-trailer").map
        fun p => ("showcase-trailer", p.2) := by
  have ho : o = .of metadata (.ok a) := ha ▸ h.eq_of
  rw [ho]
  exact metadata.entries_echoTrailers

theorem Proper.entries_of_error {o : Outcome α} (h : o.Proper metadata) (s : Status)
    (hs : o.result = .error s) : s.code ≠ .ok ∧ o.trailers.entries = [] := by
  have ho : o = .of metadata (.error s) := hs ▸ h.eq_of
  refine ⟨h.honest s hs, ?_⟩
  rw [ho]
  rfl

end Outcome

namespace Service

variable {metadata : Metadata}

theorem of_answer {α β : Type} (item : Json.Decoder α) (body : Json) (handler : α → Outcome β)
    (encode : β → Json) (o : Outcome Json)
    (hh : ∀ r, handler r = .of metadata (handler r).result)
    (h : answer item body handler encode = .done o) : o = .of metadata o.result := by
  unfold answer at h
  split at h
  · obtain rfl := Answer.done.inj h
    rfl
  · rename_i r hr
    obtain rfl := Answer.done.inj h
    rw [hh r, Outcome.of_map, Outcome.of_result]

/-- The trailers of a call with one request and one response go with its result. -/
theorem of_start (m : Method) (body : Json) (now : Time.Timestamp) (registry : Registry)
    (o : Outcome Json) (h : (start m metadata body now registry).1 = .done o) :
    o = .of metadata o.result := by
  cases m with
  | echo => exact of_answer _ body (echo metadata) _ o (fun _ => by simp [echo]) h
  | pagedExpand =>
    exact of_answer _ body (pagedExpand metadata) _ o (fun _ => by simp [pagedExpand]) h
  | pagedExpandLegacy =>
    exact of_answer _ body (pagedExpandLegacy metadata) _ o
      (fun _ => by simp [pagedExpandLegacy, pagedExpand]) h
  | getOperation =>
    exact of_answer GetOperationRequest.decoder body
      (fun r => getOperation metadata now r.name registry) Operation.toJson o
      (fun _ => by simp [getOperation]) h
  | wait =>
    simp only [start] at h
    split at h
    · obtain rfl := Answer.done.inj h
      rfl
    · obtain rfl := Answer.done.inj h
      rfl
  | block =>
    simp only [start] at h
    split at h
    · obtain rfl := Answer.done.inj h
      rfl
    · split at h
      · obtain rfl := Answer.done.inj h
        simp [blockOutcome, block, Outcome.of_map]
      · cases h
  | expand =>
    obtain rfl := Answer.done.inj h
    rfl
  | collect =>
    obtain rfl := Answer.done.inj h
    rfl
  | chat =>
    obtain rfl := Answer.done.inj h
    rfl

theorem proper_start (m : Method) (body : Json) (now : Time.Timestamp) (registry : Registry)
    (o : Outcome Json) (h : (start m metadata body now registry).1 = .done o) :
    o.Proper metadata :=
  ⟨of_start m body now registry o h, honest_start m metadata body now registry o h⟩

theorem proper_blockOutcome (r : BlockRequest) : (blockOutcome metadata r).Proper metadata := by
  refine ⟨?_, honest_blockOutcome metadata r⟩
  simp [blockOutcome, block, Outcome.of_map]

/-- A body that decodes as a request of the method. -/
def Takes (m : Method) (body : Json) : Prop :=
  match m with
  | .echo | .expand | .collect | .chat => ∃ r, EchoRequest.decoder.ofJson body = .ok r
  | .pagedExpand => ∃ r, PagedExpandRequest.decoder.ofJson body = .ok r
  | .pagedExpandLegacy => ∃ r, PagedExpandLegacyRequest.decoder.ofJson body = .ok r
  | .block => ∃ r, BlockRequest.decoder.ofJson body = .ok r
  | .wait => ∃ r, WaitRequest.decoder.ofJson body = .ok r
  | .getOperation => ∃ r, GetOperationRequest.decoder.ofJson body = .ok r

section
variable {α β : Type} {item : Json.Decoder α} {body : Json}

theorem decodeRequest_of_undecodable (h : ¬ ∃ r, item.ofJson body = .ok r) :
    ∃ s, decodeRequest item body = .error s := by
  unfold decodeRequest
  cases hd : item.ofJson body with
  | ok r => exact absurd ⟨r, hd⟩ h
  | error e => exact ⟨_, rfl⟩

theorem answer_of_undecodable (handler : α → Outcome β) (encode : β → Json)
    (h : ¬ ∃ r, item.ofJson body = .ok r) :
    ∃ s, answer item body handler encode = .done (.fail s) := by
  obtain ⟨s, hs⟩ := decodeRequest_of_undecodable h
  exact ⟨s, by rw [answer, hs]⟩

end

/-- A call with one request fails at once if the request cannot be decoded. -/
theorem start_of_not_takes (m : Method) (metadata : Metadata) (body : Json) (now : Time.Timestamp)
    (registry : Registry) (h : ¬ Takes m body) :
    ∃ s, (start m metadata body now registry).1 = .done (.fail s) := by
  cases m with
  | echo => exact answer_of_undecodable _ _ h
  | pagedExpand => exact answer_of_undecodable _ _ h
  | pagedExpandLegacy => exact answer_of_undecodable _ _ h
  | getOperation => exact answer_of_undecodable _ _ h
  | wait =>
    obtain ⟨s, hs⟩ := decodeRequest_of_undecodable h
    exact ⟨s, by rw [start, hs]⟩
  | block =>
    obtain ⟨s, hs⟩ := decodeRequest_of_undecodable h
    exact ⟨s, by rw [start, hs]⟩
  | expand => exact ⟨_, rfl⟩
  | collect => exact ⟨_, rfl⟩
  | chat => exact ⟨_, rfl⟩

theorem takes_of_start (m : Method) (body : Json) (now : Time.Timestamp) (registry : Registry)
    (o : Outcome Json) (x : Json) (h : (start m metadata body now registry).1 = .done o)
    (hx : o.result = .ok x) : Takes m body := by
  apply Classical.byContradiction
  intro hno
  obtain ⟨s, hs⟩ := start_of_not_takes m metadata body now registry hno
  obtain rfl := Answer.done.inj (h.symm.trans hs)
  cases hx

theorem takes_of_delayed (m : Method) (body : Json) (now : Time.Timestamp) (registry : Registry)
    (n : Nat) (request : BlockRequest)
    (h : (start m metadata body now registry).1 = .delayed n request) : Takes m body := by
  apply Classical.byContradiction
  intro hno
  obtain ⟨s, hs⟩ := start_of_not_takes m metadata body now registry hno
  cases h.symm.trans hs

end Service
end EchoServer
