import EchoServer.Proofs.Json.Stored
import EchoServer.Proofs.Wire.RoundTrip

namespace EchoServer.Json

/-- In a text, a container is opened only where there is room for it. -/
theorem Place.enter_cases {p : Place} (ht : p.origin = .text) (hp : 0 < p.depth) :
    p.depth = 1 ∧ p.enter = .error (.notJson .tooDeep) ∨
      1 < p.depth ∧ p.enter = .ok ⟨.text, p.depth - 1⟩ := by
  obtain ⟨origin, depth⟩ := p
  obtain rfl : origin = .text := ht
  rcases Nat.eq_or_lt_of_le hp with h | h
  · obtain rfl : depth = 1 := h.symm
    exact Or.inl ⟨rfl, rfl⟩
  · have hroom : 1 < depth := h
    exact Or.inr ⟨hroom, by simp [enter, hroom]⟩

mutual

/-- A value that does not fit a text is refused for its nesting. -/
theorem json_tooDeep (v : Json) (p : Place) (ht : p.origin = .text) (hp : 0 < p.depth)
    (h : p.depth ≤ v.depth) : Decoder.json p (.ofJson v) = .error (.notJson .tooDeep) := by
  match v with
  | .null => exact absurd h (Nat.not_le.mpr hp)
  | .bool b => exact absurd h (Nat.not_le.mpr hp)
  | .number n => exact absurd h (Nat.not_le.mpr hp)
  | .string s => exact absurd h (Nat.not_le.mpr hp)
  | .array items =>
    rw [depth] at h
    rw [Draft.ofJson, Decoder.json]
    rcases Place.enter_cases ht hp with ⟨-, henter⟩ | ⟨hroom, henter⟩
    · rw [henter]
      rfl
    · rw [henter]
      have hitems := jsonItems_tooDeep items ⟨.text, p.depth - 1⟩ rfl (by simp; omega)
        (by simp; omega)
      simp [bind, Except.bind, hitems]
  | .object members =>
    rw [depth] at h
    rw [Draft.ofJson, Decoder.json]
    rcases Place.enter_cases ht hp with ⟨-, henter⟩ | ⟨hroom, henter⟩
    · rw [henter]
      rfl
    · rw [henter]
      have hmembers := jsonMembers_tooDeep members ⟨.text, p.depth - 1⟩ rfl (by simp; omega)
        (by simp; omega)
      simp [bind, Except.bind, hmembers]

theorem jsonItems_tooDeep (items : List Json) (p : Place) (ht : p.origin = .text)
    (hp : 0 < p.depth) (h : p.depth ≤ depthItems items) :
    Decoder.jsonItems p (Draft.ofItems items) = .error (.notJson .tooDeep) := by
  match items with
  | [] => exact absurd h (Nat.not_le.mpr hp)
  | v :: rest =>
    rw [Draft.ofItems, Decoder.jsonItems]
    by_cases hv : p.depth ≤ v.depth
    · rw [json_tooDeep v p ht hp hv]
      rfl
    -- the first item fits, so a later one does not
    · have hrest : p.depth ≤ depthItems rest := by
        rw [depthItems] at h
        omega
      rw [json_ofJson v p fun _ => by omega, jsonItems_tooDeep rest p ht hp hrest]
      rfl

theorem jsonMembers_tooDeep (members : List (String × Json)) (p : Place) (ht : p.origin = .text)
    (hp : 0 < p.depth) (h : p.depth ≤ depthMembers members) :
    Decoder.jsonMembers p (Draft.ofMembers members) = .error (.notJson .tooDeep) := by
  match members with
  | [] => exact absurd h (Nat.not_le.mpr hp)
  | (k, v) :: rest =>
    rw [Draft.ofMembers, Decoder.jsonMembers]
    by_cases hv : p.depth ≤ v.depth
    · rw [json_tooDeep v p ht hp hv]
      rfl
    · have hrest : p.depth ≤ depthMembers rest := by
        rw [depthMembers] at h
        omega
      rw [json_ofJson v p fun _ => by omega, jsonMembers_tooDeep rest p ht hp hrest]
      rfl

end

/-- The members behind a tag are read as they come, so the first that does not fit is refused. -/
theorem tagOfMembers_tooDeep (variants : List String) (p : Place) (tag : String)
    (others : List (Key × Draft)) (members : List (String × Json)) (ht : p.origin = .text)
    (hp : 0 < p.depth) (hdeep : p.depth ≤ depthMembers members) (h : ∀ m ∈ members, m.1 ≠ "type") :
    Decoder.tagOfMembers variants p (some tag) others (Draft.ofMembers members) =
      .error (.notJson .tooDeep) := by
  induction members generalizing others with
  | nil => exact absurd hdeep (Nat.not_le.mpr hp)
  | cons m members ih =>
    obtain ⟨k, v⟩ := m
    have hk : k ≠ "type" := h (k, v) (by simp)
    rw [depthMembers] at hdeep
    by_cases hv : p.depth ≤ v.depth
    · simp [Draft.ofMembers, Decoder.tagOfMembers, Decoder.key, Decoder.buffered, hk,
        json_tooDeep v p ht hp hv, bind, Except.bind]
    · have hfirst := json_ofJson v p fun _ => by omega
      have hrest := ih ((.name k, .ofJson v) :: others) (by omega) fun n hn => h n (by simp [hn])
      simp [Draft.ofMembers, Decoder.tagOfMembers, Decoder.key, Decoder.buffered, hk, hfirst,
        hrest, bind, Except.bind, pure, Except.pure]

theorem tagged_tooDeep {α : Type} (typeName : String) (variants : List String)
    (content : String → Draft → Except DecodeError α) (p : Place) (kind : String)
    (members : List (String × Json)) (hkind : kind ∈ variants) (ht : p.origin = .text)
    (hp : 1 < p.depth) (hdeep : p.depth ≤ depthMembers members + 1)
    (h : ∀ m ∈ members, m.1 ≠ "type") :
    Decoder.tagged typeName variants content p
        (.ofJson (.object (("type", .string kind) :: members))) = .error (.notJson .tooDeep) := by
  have henter : p.enter = .ok ⟨.text, p.depth - 1⟩ :=
    ((Place.enter_cases ht (by omega)).resolve_left fun h => by omega).2
  have hothers := tagOfMembers_tooDeep variants ⟨.text, p.depth - 1⟩ kind [] members rfl
    (by simp; omega) (by simp; omega) h
  simp [Draft.ofJson, Draft.ofMembers, Decoder.tagged, henter, Decoder.tagOfMembers, Decoder.key,
    Decoder.variantTag, Decoder.variantName, hkind, hothers, bind, Except.bind]

end EchoServer.Json

namespace EchoServer

open Json

/-- The status with the numbers in its details as they are read again. -/
def Status.reread (s : Status) : Status :=
  { s with details := s.details.map fun d => { d with value := d.value.reread } }

/-- The frame with the numbers in its opaque values as they are read again. -/
def ServerFrame.reread : ServerFrame → ServerFrame
  | .message body => .message body.reread
  | .trailers status md => .trailers status.reread md

theorem Status.toJson_reread (s : Status) : s.reread.toJson = s.toJson.reread := by
  have hitems (ds : List Detail) : (ds.map fun d => { d with value := d.value.reread : Detail }).map
      Detail.toJson = rereadItems (ds.map Detail.toJson) := by
    induction ds with
    | nil => rfl
    | cons d ds ih =>
      rw [List.map_cons, List.map_cons, ih]
      rfl
  obtain ⟨code, message, details⟩ := s
  cases details with
  | nil => simp [reread, toJson, Json.reread, rereadMembers, Json.int32, rereadNumber_integer]
  | cons d ds =>
    have hds := hitems (d :: ds)
    simp only [List.map_cons] at hds
    simp [reread, toJson, Json.reread, rereadMembers, Json.int32, rereadNumber_integer, hds,
      -List.map_map]

theorem ServerFrame.toJson_reread (f : ServerFrame) : f.reread.toJson = f.toJson.reread := by
  cases f with
  | message body => simp [reread, toJson, Json.reread, rereadMembers]
  | trailers status md =>
    by_cases he : md.isEmpty <;>
      simp [reread, toJson, Json.reread, rereadMembers, he, status.toJson_reread, md.reread_toJson]

theorem Status.canonical_reread (s : Status) : s.reread.canonical = s.canonical.reread := by
  simp only [reread, canonical, List.map_map, Detail.canonical, Function.comp_def,
    Json.canonical_reread]

theorem ServerFrame.canonical_reread (f : ServerFrame) :
    f.reread.canonical = f.canonical.reread := by
  cases f with
  | message body => exact congrArg ServerFrame.message body.canonical_reread
  | trailers status md => exact congrArg (ServerFrame.trailers · md) status.canonical_reread

/-- A frame that is nested too deep is refused. -/
theorem ServerFrame.decoder_tooDeep (f : ServerFrame) (h : 128 ≤ f.toJson.depth) :
    ServerFrame.decoder .text (.ofJson f.toJson) = .error (.notJson .tooDeep) := by
  cases f with
  | message body =>
    exact tagged_tooDeep _ _ _ .text "message" _ (by decide) rfl (by decide)
      (by simpa [toJson, depth, depthMembers, Place.text] using h) (by simp)
  | trailers status md =>
    have hsplit : ServerFrame.toJson (.trailers status md) =
        .object (("type", .string "trailers") :: ("status", status.toJson) ::
          if md.isEmpty then [] else [("trailers", md.toJson)]) := rfl
    rw [hsplit] at h ⊢
    refine tagged_tooDeep _ _ _ .text "trailers" _ (by decide) rfl (by decide) ?_ ?_
    · simpa [depth, depthMembers, Place.text] using h
    · by_cases he : md.isEmpty <;> simp [he]

namespace Wire

theorem lengthOf?_lengthLine_of_large (n : Nat) (h : ¬ n < 18446744073709551616) :
    lengthOf? (lengthLine n) = none := by
  have hne : (lengthLine n).isEmpty = false := by simpa using lengthLine_ne_nil n
  have hall : (lengthLine n).all isDigit = true := List.all_eq_true.mpr (isDigit_of_lengthLine n)
  simp only [lengthOf?, hne, hall, chars_lengthLine, Nat.ofDigitChars_ten_toDigits, Bool.not_false,
    Bool.and_self, if_true, h, if_false]

/-- Why a frame of more than the allowed size is refused. -/
def oversize (n : Nat) : FrameError :=
  if n < 18446744073709551616 then .tooLarge n else .invalidLength (Text.lossy (lengthLine n))

/-- Exactly what a peer makes of a frame that the server writes, whatever comes behind it. -/
theorem parse_encode_serverFrame (f : ServerFrame) (rest : List UInt8) :
    parse ServerFrame.decoder (encode f.toJson ++ rest) =
      if maxFrameSize < f.toJson.print.length then .error (oversize f.toJson.print.length)
      else if f.toJson.depth < 128 then
        .ok (.complete f.reread.canonical (encode f.toJson).length rest)
      else .error (.invalidBody (.notJson .tooDeep)) := by
  have htext : ServerFrame.decoder.ofText f.toJson.print =
      if f.toJson.depth < 128 then .ok f.reread.canonical else .error (.notJson .tooDeep) := by
    rw [ofText_print, ← f.toJson_reread]
    have hdepth : f.reread.toJson.depth = f.toJson.depth := by
      rw [f.toJson_reread, depth_reread]
    split
    · exact f.reread.decoder_toJson .text fun _ => by rw [hdepth]; assumption
    · exact f.reread.decoder_tooDeep (by omega)
  have hline : encode f.toJson ++ rest =
      lengthLine f.toJson.print.length ++ 0x0D :: 0x0A :: (f.toJson.print ++ rest) := by
    simp [encode_eq]
  by_cases hsmall : maxFrameSize < f.toJson.print.length
  · rw [if_pos hsmall, hline, parse, splitLine_lengthLine]
    unfold oversize
    by_cases hword : f.toJson.print.length < 18446744073709551616
    · simp only [lengthOf?_lengthLine _ hword, if_pos hsmall, if_pos hword]
    · simp only [lengthOf?_lengthLine_of_large _ hword, if_neg hword]
  · rw [if_neg hsmall]
    by_cases hdeep : f.toJson.depth < 128
    · rw [if_pos hdeep] at htext ⊢
      exact parse_encode ServerFrame.decoder _ _ rest (Nat.not_lt.mp hsmall) htext
    · rw [if_neg hdeep] at htext ⊢
      have hword : f.toJson.print.length < 18446744073709551616 :=
        Nat.lt_of_le_of_lt (Nat.not_lt.mp hsmall) (by decide)
      rw [hline, parse, splitLine_lengthLine]
      simp [lengthOf?_lengthLine _ hword, hsmall, htext]

end Wire
end EchoServer
