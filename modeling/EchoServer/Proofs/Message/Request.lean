import EchoServer.Message.Block
import EchoServer.Message.Echo
import EchoServer.Message.Operation
import EchoServer.Proofs.Json.Given
import EchoServer.Proofs.Message.Status

namespace EchoServer

open Json

/-- A status in canonical order that is nested so deep at most. -/
structure Status.Stored (s : Status) (n : Nat) : Prop where
  canonical : s.canonical = s
  depth : s.toJson.depth ≤ n

theorem Detail.depth_toJson (d : Detail) : d.toJson.depth = d.value.depth + 1 := by
  simp [toJson, depth, depthMembers]

theorem Detail.decoder_gives : (Detail.record.decoder "Detail").Gives fun n d =>
    d.canonical = d ∧ d.toJson.depth ≤ n := by
  have hvalue : (Record.field "value" Decoder.json (.default .null)).Gives fun n v =>
      v.canonical = v ∧ v.depth ≤ n := by
    refine gives_field _ _ gives_json ?_
    rintro v (h | h) n <;> obtain rfl := Option.some.inj h <;> exact ⟨rfl, Nat.zero_le _⟩
  have hrecord : Detail.record.Gives fun n d => d.value.canonical = d.value ∧ d.value.depth ≤ n :=
    gives_map ((gives_both (gives_any_field _ _ _) hvalue).imp fun n x hx => hx.2)
  refine (gives_decoder "Detail" hrecord).imp ?_
  rintro n d ⟨m, rfl, hstored, hdepth⟩
  refine ⟨?_, by rw [d.depth_toJson]; omega⟩
  obtain ⟨url, value⟩ := d
  simp only [canonical, hstored]

/-- A status is nested as deep as the deepest of its details, and two containers. -/
theorem Status.depth_toJson_le (s : Status) (n : Nat) (hn : 1 ≤ n)
    (h : ∀ d ∈ s.details, d.toJson.depth + 2 ≤ n) : s.toJson.depth ≤ n := by
  cases hd : s.details with
  | nil => simpa [toJson, hd, depth, depthMembers, Json.int32] using hn
  | cons d ds =>
    have hitems : depthItems (s.details.map Detail.toJson) ≤ n - 2 := by
      refine (Json.depthItems_le_iff _ _).mpr fun v hv => ?_
      obtain ⟨e, he, rfl⟩ := List.mem_map.mp hv
      have := h e he
      omega
    have hdeep := h d (by simp [hd])
    have hne : s.details.isEmpty = false := by simp [hd]
    simp only [toJson, hne, Bool.false_eq_true, if_false, depth, depthMembers, List.cons_append,
      List.nil_append, Json.int32]
    omega

theorem Status.decoder_gives : Decoder.Gives Status.decoder fun n s => s.Stored n := by
  have hdetails : (Record.field "details" (Decoder.list (Detail.record.decoder "Detail"))
      (.default [])).Gives fun n ds => ∀ d ∈ ds, d.canonical = d ∧ d.toJson.depth + 1 ≤ n := by
    refine gives_field _ _ ((gives_list Detail.decoder_gives).imp ?_) ?_
    · rintro n ds ⟨m, rfl, hall⟩ d hd
      exact ⟨(hall d hd).1, Nat.succ_le_succ (hall d hd).2⟩
    · rintro ds (h | h) n <;> obtain rfl := Option.some.inj h <;> simp
  have hrecord : Status.record.Gives fun n s =>
      ∀ d ∈ s.details, d.canonical = d ∧ d.toJson.depth + 1 ≤ n :=
    gives_map ((gives_both (gives_both (gives_any_field _ _ _) (gives_any_field _ _ _))
      hdetails).imp fun n x hx => hx.2)
  refine (gives_decoder "Status" hrecord).imp ?_
  rintro n s ⟨m, rfl, hall⟩
  constructor
  · obtain ⟨code, message, details⟩ := s
    have hsame : details.map Detail.canonical = details :=
      (List.map_congr_left fun d hd => (hall d hd).1).trans (List.map_id _)
    simp only [canonical, hsame]
  · exact s.depth_toJson_le _ (by omega) fun d hd => Nat.succ_le_succ (hall d hd).2

/-- The error of a request, spelled as a field. -/
theorem error_gives : (Record.field "error" (Decoder.optional Status.decoder)
    (.default none)).Gives fun n e => ∀ s, e = some s → s.Stored n := by
  refine gives_field _ _ (gives_optional Status.decoder_gives) ?_
  rintro e (h | h) n s rfl <;> cases h

theorem EchoRequest.decoder_gives : Decoder.Gives EchoRequest.decoder fun n r =>
    ∀ s, r.error = some s → s.Stored (n - 1) := by
  have hrecord : EchoRequest.record.Gives fun n r => ∀ s, r.error = some s → s.Stored n :=
    gives_map ((gives_both (gives_both (gives_any_field _ _ _) (gives_any_field _ _ _))
      error_gives).imp fun n x hx => hx.2)
  refine (gives_decoder "EchoRequest" hrecord).imp ?_
  rintro n r ⟨m, rfl, h⟩
  exact h

theorem BlockRequest.decoder_gives : Decoder.Gives BlockRequest.decoder fun n r =>
    ∀ s, r.error = some s → s.Stored (n - 1) := by
  have hrecord : BlockRequest.record.Gives fun n r => ∀ s, r.error = some s → s.Stored n :=
    gives_map ((gives_both (gives_both (gives_any_field _ _ _) error_gives)
      (gives_any_field _ _ _)).imp fun n x hx => hx.1.2)
  refine (gives_decoder "BlockRequest" hrecord).imp ?_
  rintro n r ⟨m, rfl, h⟩
  exact h

theorem WaitRequest.decoder_gives : Decoder.Gives WaitRequest.decoder fun n r =>
    ∀ s, r.error = some s → s.Stored (n - 1) := by
  have hrecord : WaitRequest.record.Gives fun n r => ∀ s, r.error = some s → s.Stored n :=
    gives_map ((gives_both (gives_both (gives_both (gives_any_field _ _ _)
      (gives_any_field _ _ _)) error_gives) (gives_any_field _ _ _)).imp fun n x hx => hx.1.2)
  refine (gives_decoder "WaitRequest" hrecord).imp ?_
  rintro n r ⟨m, rfl, h⟩
  exact h

end EchoServer
