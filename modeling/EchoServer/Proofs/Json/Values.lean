import EchoServer.Json.Record
import EchoServer.Proofs.Except

namespace EchoServer.Json

mutual

/-- How deep containers are nested in a value. -/
def depth : Json → Nat
  | .array items => depthItems items + 1
  | .object members => depthMembers members + 1
  | _ => 0

def depthItems : List Json → Nat
  | [] => 0
  | v :: rest => max (depth v) (depthItems rest)

def depthMembers : List (String × Json) → Nat
  | [] => 0
  | (_, v) :: rest => max (depth v) (depthMembers rest)

end

/-- A value fits in a place: in a text, so many containers may be opened there. -/
def Place.Fits (p : Place) (d : Nat) : Prop := p.origin = .text → d < p.depth

theorem Place.fits_buffer (d : Nat) : Place.buffer.Fits d := fun h => by cases h

theorem Place.Fits.of_le {p : Place} {d e : Nat} (h : p.Fits e) (hle : d ≤ e) : p.Fits d :=
  fun ht => Nat.lt_of_le_of_lt hle (h ht)

/-- Where a container fits, it can be opened, and its parts fit inside. -/
theorem Place.Fits.enter {p : Place} {d : Nat} (h : p.Fits (d + 1)) :
    ∃ q, p.enter = .ok q ∧ q.origin = p.origin ∧ q.Fits d := by
  unfold Place.enter
  by_cases ht : p.origin = .text
  · have hd : d + 1 < p.depth := h ht
    refine ⟨{ p with depth := p.depth - 1 }, ?_, rfl, fun _ => ?_⟩
    · rw [if_pos ht, if_pos (by omega)]
    · show d < p.depth - 1
      omega
  · exact ⟨p, if_neg ht, rfl, fun ho => absurd ho ht⟩

mutual

/-- Whoever skips the draft of a value has nothing to report. -/
theorem skipError_ofJson (v : Json) : (Draft.ofJson v).skipError = none := by
  match v with
  | .null => rfl
  | .bool b => rfl
  | .number n => rfl
  | .string s => rfl
  | .array items => rw [Draft.ofJson, Draft.skipError, skipItems_ofItems items]; rfl
  | .object members => rw [Draft.ofJson, Draft.skipError, skipMembers_ofMembers members]; rfl

theorem skipItems_ofItems (items : List Json) : Draft.skipItems (Draft.ofItems items) = none := by
  match items with
  | [] => rfl
  | v :: rest =>
    rw [Draft.ofItems, Draft.skipItems, skipError_ofJson v, skipItems_ofItems rest]
    rfl

theorem skipMembers_ofMembers (members : List (String × Json)) :
    Draft.skipMembers (Draft.ofMembers members) = none := by
  match members with
  | [] => rfl
  | (k, v) :: rest =>
    rw [Draft.ofMembers, Draft.skipMembers, skipError_ofJson v, skipMembers_ofMembers rest]
    · rfl
    · intro h
      cases h

end

mutual

/-- An opaque value is kept, in canonical order. -/
theorem json_ofJson (v : Json) (p : Place) (h : p.Fits v.depth) :
    Decoder.json p (.ofJson v) = .ok v.canonical := by
  match v with
  | .null => rfl
  | .bool b => rfl
  | .number n => rfl
  | .string s => rfl
  | .array items =>
    obtain ⟨q, hq, -, hfits⟩ := Place.Fits.enter (d := depthItems items) h
    rw [Draft.ofJson, Decoder.json, hq]
    simp [bind, Except.bind, jsonItems_ofItems items q hfits, checkStop, canonical, pure,
      Except.pure]
  | .object members =>
    obtain ⟨q, hq, -, hfits⟩ := Place.Fits.enter (d := depthMembers members) h
    rw [Draft.ofJson, Decoder.json, hq]
    simp [bind, Except.bind, jsonMembers_ofMembers members q hfits, checkStop, canonical, pure,
      Except.pure]

theorem jsonItems_ofItems (items : List Json) (p : Place) (h : p.Fits (depthItems items)) :
    Decoder.jsonItems p (Draft.ofItems items) = .ok (canonicalItems items) := by
  match items with
  | [] => rfl
  | v :: rest =>
    rw [Draft.ofItems, Decoder.jsonItems, json_ofJson v p (h.of_le (Nat.le_max_left _ _)),
      jsonItems_ofItems rest p (h.of_le (Nat.le_max_right _ _))]
    rfl

theorem jsonMembers_ofMembers (members : List (String × Json)) (p : Place)
    (h : p.Fits (depthMembers members)) :
    Decoder.jsonMembers p (Draft.ofMembers members) = .ok (canonicalMembers members) := by
  match members with
  | [] => rfl
  | (k, v) :: rest =>
    rw [Draft.ofMembers, Decoder.jsonMembers, json_ofJson v p (h.of_le (Nat.le_max_left _ _)),
      jsonMembers_ofMembers rest p (h.of_le (Nat.le_max_right _ _))]
    rfl

end

end EchoServer.Json
