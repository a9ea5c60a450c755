import EchoServer.Metadata
import EchoServer.Proofs.Json.Records
import EchoServer.Status

namespace EchoServer

open Json

theorem Metadata.decoder_toJson (m : Metadata) (p : Place) (h : p.Fits 2) :
    Metadata.decoder p (.ofJson m.toJson) = .ok m := by
  obtain ⟨q, hq, -, hq1⟩ := Place.Fits.enter (d := 1) h
  obtain ⟨r, hr, -, -⟩ := Place.Fits.enter (d := 0) hq1
  have hlist := list_map (Decoder.pair Decoder.string Decoder.string) p q
    (fun e : String × String => .array [.string e.1, .string e.2]) id m.entries hq
    fun e _ => pair_array Decoder.string Decoder.string q r _ _ e.1 e.2 hr rfl rfl
  rw [Metadata.decoder, Metadata.toJson, hlist]
  simp [bind, Except.bind, pure, Except.pure]

theorem Code.decoder_toInt32 (c : Code) (p : Place) :
    Code.decoder p (.ofJson (.int32 c.toInt32)) = .ok c := by
  cases c <;> rfl

/-- The detail with its value in canonical order. -/
def Detail.canonical (d : Detail) : Detail := { d with value := d.value.canonical }

/-- The status with its details in canonical order. -/
def Status.canonical (s : Status) : Status := { s with details := s.details.map Detail.canonical }

theorem Detail.decoder_toJson (d : Detail) (p : Place) (h : p.Fits d.toJson.depth) :
    Detail.record.decoder "Detail" p (.ofJson d.toJson) = .ok d.canonical := by
  obtain ⟨q, hq, -, hfits⟩ := Place.Fits.enter (d := d.value.depth)
    (h.of_le (by simp [toJson, depth, depthMembers]))
  have hurl := field_of_present "type_url" Decoder.string .required q
    [("type_url", .string d.typeUrl), ("value", d.value)] (.string d.typeUrl) d.typeUrl
    (by simp) rfl
  have hvalue := field_of_present "value" Decoder.json (.default .null) q
    [("type_url", .string d.typeUrl), ("value", d.value)] _ _ (by simp)
    (json_ofJson d.value q hfits)
  exact decoder_object "Detail" Detail.record p q _ _ hq
    (map_ofMembers _ _ q _ _ (both_ofMembers _ _ q _ _ _ hurl hvalue))

/-- The details of a status are nested two containers deeper than the status. -/
theorem Status.depth_detail (s : Status) (d : Detail) (hd : d ∈ s.details) :
    d.toJson.depth + 2 ≤ s.toJson.depth := by
  have hitem : ∀ ds : List Detail, d ∈ ds →
      d.toJson.depth ≤ depthItems (ds.map Detail.toJson) := by
    intro ds hmem
    induction ds with
    | nil => cases hmem
    | cons e ds ih =>
      rcases List.mem_cons.mp hmem with rfl | htail
      · exact Nat.le_max_left _ _
      · exact Nat.le_trans (ih htail) (Nat.le_max_right _ _)
  have hne : s.details.isEmpty = false := by
    cases hs : s.details with
    | nil => simp [hs] at hd
    | cons e ds => rfl
  have hle := hitem s.details hd
  simp [toJson, hne, depth, depthMembers]
  omega

theorem Status.decoder_toJson (s : Status) (p : Place) (h : p.Fits s.toJson.depth) :
    Status.decoder p (.ofJson s.toJson) = .ok s.canonical := by
  have hpos : 1 ≤ s.toJson.depth := by simp [toJson, depth]
  obtain ⟨q, hq, -, hfits⟩ := Place.Fits.enter (d := s.toJson.depth - 1) (h.of_le (by omega))
  let details : List (String × Json) :=
    if s.details.isEmpty then [] else [("details", .array (s.details.map Detail.toJson))]
  have hrest : ∀ name, name ≠ "details" → details.filter (·.1 = name) = [] := by
    intro name hname
    by_cases he : s.details.isEmpty <;> simp [details, he, Ne.symm hname]
  have hcode := field_of_present "code" Code.decoder .required q
    ([("code", .int32 s.code.toInt32), ("message", .string s.message)] ++ details) _ s.code
    (by simp [hrest]) (Code.decoder_toInt32 s.code q)
  have hmessage := field_of_present "message" Decoder.string (.default "") q
    ([("code", .int32 s.code.toInt32), ("message", .string s.message)] ++ details)
    (.string s.message) s.message (by simp [hrest]) rfl
  have hdetails : (Record.field "details" (Decoder.list (Detail.record.decoder "Detail"))
      (.default [])).ofMembers q (Draft.ofMembers
        ([("code", .int32 s.code.toInt32), ("message", .string s.message)] ++ details)) =
      .ok (s.details.map Detail.canonical) := by
    cases hs : s.details with
    | nil => exact field_of_absent "details" _ _ q _ _ (by simp [details, hs]) rfl
    | cons d ds =>
      have hd : d ∈ s.details := by simp [hs]
      have hdeep := s.depth_detail d hd
      obtain ⟨r, hr, -, hfits'⟩ := Place.Fits.enter (d := s.toJson.depth - 2)
        (hfits.of_le (by omega))
      have hlist := list_map (Detail.record.decoder "Detail") q r Detail.toJson Detail.canonical
        s.details hr fun e he => e.decoder_toJson r (hfits'.of_le (by
          have := s.depth_detail e he
          omega))
      rw [hs] at hlist
      exact field_of_present "details" _ _ q _ _ _ (by simp [details, hs]) hlist
  exact decoder_object "Status" Status.record p q _ _ hq (map_ofMembers _ _ q _ _
    (both_ofMembers _ _ q _ _ _ (both_ofMembers _ _ q _ _ _ hcode hmessage) hdetails))

end EchoServer
