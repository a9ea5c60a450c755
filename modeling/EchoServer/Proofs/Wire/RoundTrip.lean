import EchoServer.Proofs.Json.RoundTrip
import EchoServer.Proofs.Wire.Frames
import EchoServer.Proofs.Wire.Reading

namespace EchoServer

open Json

theorem Metadata.reread_toJson (m : Metadata) : m.toJson.reread = m.toJson := by
  refine reread_of_integersOnly _ fun n hn => ?_
  obtain ⟨entries⟩ := m
  rw [toJson, numbers] at hn
  induction entries with
  | nil => cases hn
  | cons p entries ih => exact ih (by simpa [numbersItems, numbers] using hn)

theorem Metadata.depth_toJson_le (m : Metadata) : m.toJson.depth ≤ 2 := by
  obtain ⟨entries⟩ := m
  simp only [toJson, depth]
  induction entries with
  | nil => decide
  | cons p entries ih =>
    simp only [List.map_cons, depthItems, depth] at ih ⊢
    omega

namespace Wire

/-- The digits of a length, as the bytes of a length line. -/
def lengthLine (n : Nat) : List UInt8 := utf8 (Nat.toDigits 10 n)

theorem lengthLine_eq (n : Nat) :
    lengthLine n = (Nat.toDigits 10 n).map fun c => UInt8.ofNat c.toNat := by
  have hbytes : ∀ ds : List Char, (∀ c ∈ ds, c.isDigit = true) →
      utf8 ds = ds.map fun c => UInt8.ofNat c.toNat := by
    intro ds hd
    induction ds with
    | nil => rfl
    | cons c ds ih =>
      rw [utf8_cons, (digit_facts c (hd c (by simp))).1, ih fun d hm => hd d (by simp [hm])]
      rfl
  exact hbytes _ fun c hc => Nat.isDigit_of_mem_toDigits (by decide) (by decide) hc

theorem isDigit_of_lengthLine (n : Nat) : ∀ b ∈ lengthLine n, isDigit b = true := by
  intro b hb
  rw [lengthLine_eq] at hb
  obtain ⟨c, hc, rfl⟩ := List.mem_map.mp hb
  exact (digit_facts c (Nat.isDigit_of_mem_toDigits (by decide) (by decide) hc)).2.1

theorem lengthLine_ne_nil (n : Nat) : lengthLine n ≠ [] := by
  simp [lengthLine_eq, Nat.toDigits_ne_nil]

/-- The characters of a length line are the digits of the length. -/
theorem chars_lengthLine (n : Nat) :
    (lengthLine n).map (fun b => Char.ofNat b.toNat) = Nat.toDigits 10 n := by
  rw [lengthLine_eq, List.map_map]
  refine (List.map_congr_left fun c hc => ?_).trans (List.map_id _)
  exact (digit_facts c (Nat.isDigit_of_mem_toDigits (by decide) (by decide) hc)).2.2

theorem lengthOf?_lengthLine (n : Nat) (h : n < 18446744073709551616) :
    lengthOf? (lengthLine n) = some n := by
  have hne : (lengthLine n).isEmpty = false := by
    simpa using lengthLine_ne_nil n
  have hall : (lengthLine n).all isDigit = true :=
    List.all_eq_true.mpr (isDigit_of_lengthLine n)
  simp only [lengthOf?, hne, hall, chars_lengthLine, Nat.ofDigitChars_ten_toDigits, Bool.not_false,
    Bool.and_self, if_true, h]

theorem not_newline_of_digit {b : UInt8} (h : isDigit b = true) : b ≠ 0x0D := by
  rintro rfl
  cases h

theorem splitLine_lengthLine (n : Nat) (rest : List UInt8) :
    splitLine (lengthLine n ++ 0x0D :: 0x0A :: rest) = some (lengthLine n, rest) :=
  splitLine_ended _ rest fun b hb => not_newline_of_digit (isDigit_of_lengthLine n b hb)

/-- The length line of a frame of allowed size is never cut short. -/
theorem not_cutShort_lengthLine (n : Nat) (h : n ≤ maxFrameSize) : ¬ CutShort (lengthLine n) := by
  intro hcut
  have hlen : (lengthLine n).length ≤ 8 := by
    rw [lengthLine_eq, List.length_map]
    exact (Nat.length_toDigits_le_iff (by decide) (by decide)).mpr
      (Nat.lt_of_le_of_lt h (by decide))
  have hmin : 20 ≤ (lengthLine n).length := hcut.1
  omega

theorem encode_eq (v : Json) :
    encode v = lengthLine v.print.length ++ 0x0D :: 0x0A :: v.print := by
  simp [encode, lengthLine]

theorem encode_ne_nil (v : Json) : encode v ≠ [] := by
  simp [encode_eq]

section
variable {α : Type} (frame : Decoder α)

/-- An encoded value is parsed as the frame that its text is read as, and nothing behind it is
touched. -/
theorem parse_encode (v : Json) (f : α) (more : List UInt8) (hsmall : v.print.length ≤ maxFrameSize)
    (hf : frame.ofText v.print = .ok f) :
    parse frame (encode v ++ more) = .ok (.complete f (encode v).length more) := by
  have hbytes : encode v ++ more =
      lengthLine v.print.length ++ 0x0D :: 0x0A :: (v.print ++ more) := by
    simp [encode_eq]
  have hfits : v.print.length < 18446744073709551616 := Nat.lt_of_le_of_lt hsmall (by decide)
  refine (parse_complete_iff frame _ more f _).mpr ⟨lengthLine v.print.length, v.print ++ more,
    v.print.length, ?_, lengthOf?_lengthLine _ hfits, hsmall, ?_, ?_, ?_, ?_⟩
  · rw [hbytes, splitLine_lengthLine]
  · simp
  · rwa [List.take_left]
  · simp [encode_eq]
    omega
  · rw [List.drop_left]

/-- An allowed value whose text is read as `f`. -/
def Spelled (v : Json) (f : α) : Prop :=
  v.print.length ≤ maxFrameSize ∧ frame.ofText v.print = .ok f

/-- No prefix of what is sent looks malformed. -/
theorem parse_front_ne_error (v : Json) (f : α) (bytes more rest : List UInt8) (e : FrameError)
    (hv : Spelled frame v f) (h : bytes ++ more = encode v ++ rest) :
    parse frame bytes ≠ .error e := by
  intro he
  rcases parse_append_error frame bytes more e he with hall | ⟨line, tail, hs, hcut⟩
  · rw [h, parse_encode frame v f rest hv.1 hv.2] at hall
    cases hall
  · have hline : encode v ++ rest =
        lengthLine v.print.length ++ 0x0D :: 0x0A :: (v.print ++ rest) := by simp [encode_eq]
    rw [h, hline, splitLine_lengthLine] at hs
    obtain ⟨rfl, -⟩ := by simpa using hs
    exact not_cutShort_lengthLine _ hv.1 hcut

/-- A reader with encoded frames before it gets these frames, each for its own bytes, and nothing
is left. -/
theorem readAll_encoded (spell : α → Json) (i : Inbox) (chunks : List (List UInt8))
    (frames : List α) (hopen : i.closed = true → chunks = [])
    (hall : ∀ f ∈ frames, Spelled frame (spell f) f)
    (h : unread i chunks = frames.flatMap fun f => encode (spell f)) :
    readAll frame i chunks =
      ⟨frames, frames.map fun f => encode (spell f), none, ⟨[], [], true⟩⟩ := by
  fun_induction readAll frame i chunks generalizing frames with
  | case1 i chunks f j hpoll t ih =>
    obtain ⟨k, rest, hp, rfl⟩ := (poll_eq_frame_iff frame i j _ f).mp hpoll
    obtain ⟨hdrop, hk, -⟩ := parse_complete_bytes frame _ rest f k hp
    have hwhole : parse frame (unread i chunks) =
        .ok (.complete f k (unread { i with buffer := rest } chunks)) := by
      simpa only [unread, List.append_assoc] using
        parse_append_complete frame i.buffer rest (i.arrived ++ chunks.flatten) f k hp
    cases frames with
    | nil =>
      rw [h] at hwhole
      cases hwhole
    | cons g frames =>
      obtain ⟨hsmall, hg⟩ := hall g (by simp)
      rw [h, List.flatMap_cons, parse_encode frame (spell g) g _ hsmall hg] at hwhole
      obtain ⟨rfl, rfl, hrest⟩ := by simpa using hwhole
      have htaken : takenBetween i { i with buffer := rest } = encode (spell g) := by
        have hfront : i.buffer ++ (i.arrived ++ chunks.flatten) =
            encode (spell g) ++ frames.flatMap fun f => encode (spell f) := by
          simpa [unread] using h
        have hlen : i.buffer.length - rest.length = (encode (spell g)).length := by omega
        have hshort : (encode (spell g)).length ≤ i.buffer.length := by omega
        have htake : (i.buffer ++ (i.arrived ++ chunks.flatten)).take (encode (spell g)).length =
            i.buffer.take (encode (spell g)).length := List.take_append_of_le_length hshort
        rw [takenBetween, hlen, ← htake, hfront, List.take_left]
      have ht := ih frames hopen (fun f hf => hall f (by simp [hf])) hrest.symm
      simp only [t, ht, htaken, List.map_cons]
  | case2 i chunks j hpoll =>
    obtain ⟨rfl, hb, ha, hc⟩ := (poll_eq_ended_iff frame i j _).mp hpoll
    cases frames with
    | nil =>
      obtain ⟨buffer, arrived, closed⟩ := j
      obtain ⟨rfl, rfl, rfl⟩ := And.intro hb (And.intro ha hc)
      rfl
    | cons g frames =>
      have hnil : unread j chunks = [] := by simp [unread, hb, ha, hopen hc]
      rw [hnil, List.flatMap_cons] at h
      exact absurd (List.append_eq_nil_iff.mp h.symm).1 (encode_ne_nil _)
  | case3 i chunks e j hpoll =>
    -- a front of what was sent is no failure, and its end is not in the middle of a frame
    obtain ⟨rfl, hcase⟩ := (poll_eq_failed_iff frame i j _ e).mp hpoll
    have hfront : j.buffer ++ (j.arrived ++ chunks.flatten) =
        frames.flatMap fun f => encode (spell f) := by simpa [unread] using h
    cases frames with
    | nil =>
      have hb : j.buffer = [] := (List.append_eq_nil_iff.mp hfront).1
      rcases hcase with hp | ⟨-, -, -, hne, -⟩
      · rw [hb] at hp
        cases hp
      · exact absurd hb hne
    | cons g frames =>
      rw [List.flatMap_cons] at hfront
      rcases hcase with hp | ⟨hp, ha, hc, -, -⟩
      · exact absurd hp (parse_front_ne_error frame _ g _ _ _ e (hall g (by simp)) hfront)
      · obtain ⟨hsmall, hg⟩ := hall g (by simp)
        have hb : j.buffer = encode (spell g) ++ frames.flatMap fun f => encode (spell f) := by
          simpa [ha, hopen hc] using hfront
        rw [hb, parse_encode frame (spell g) g _ hsmall hg] at hp
        cases hp
  | case4 i chunks j hpoll ih =>
    obtain ⟨-, -, rfl⟩ := (poll_eq_more_iff frame i j _).mp hpoll
    refine ih frames hopen hall ?_
    rw [← h]
    simp [unread, Inbox.take]
  | case5 i hpoll ih => exact ih frames (fun _ => rfl) hall h
  | case6 i hpoll c rest ih =>
    obtain ⟨-, -, hc⟩ := (poll_eq_none_iff frame i _).mp hpoll
    refine ih frames (fun hclosed => ?_) hall ?_
    · rw [Inbox.receive, hc] at hclosed
      cases hclosed
    · rw [← h]
      simp [unread, Inbox.receive]

end

/-- A frame whose values can be sent and come back: they are in canonical order, without binary64
numbers, and neither nested too deep nor too large. -/
structure Sendable {α : Type} (spell : α → Json) (canonical : α → α) (f : α) : Prop where
  stored : canonical f = f
  integers : IntegersOnly (spell f)
  shallow : (spell f).depth < 128
  small : (spell f).print.length ≤ maxFrameSize

theorem Sendable.spelled {α : Type} {spell : α → Json} {canonical : α → α} {f : α}
    (frame : Decoder α) (h : Sendable spell canonical f)
    (hread : ∀ p : Place, p.Fits (spell f).depth →
      frame p (.ofJson (spell f)) = .ok (canonical f)) : Spelled frame (spell f) f := by
  refine ⟨h.small, ?_⟩
  rw [ofText_print frame (spell f), reread_of_integersOnly _ h.integers,
    hread .text fun _ => h.shallow, h.stored]

/-- Frames that are written one behind the other and cut into any chunks are read as these frames,
each for exactly its own bytes; then the stream ends, and nothing is left. -/
theorem streams_round_trip :
    (∀ (frames : List ClientFrame) (chunks : List (List UInt8)),
      (∀ f ∈ frames, Sendable ClientFrame.toJson ClientFrame.canonical f) →
      IsChunking (frames.flatMap fun f => encode f.toJson) chunks →
      readAll ClientFrame.decoder .empty chunks =
        ⟨frames, frames.map fun f => encode f.toJson, none, ⟨[], [], true⟩⟩) ∧
    (∀ (frames : List ServerFrame) (chunks : List (List UInt8)),
      (∀ f ∈ frames, Sendable ServerFrame.toJson ServerFrame.canonical f) →
      IsChunking (frames.flatMap fun f => encode f.toJson) chunks →
      readAll ServerFrame.decoder .empty chunks =
        ⟨frames, frames.map fun f => encode f.toJson, none, ⟨[], [], true⟩⟩) := by
  refine ⟨fun frames chunks hall hc => ?_, fun frames chunks hall hc => ?_⟩
  · refine readAll_encoded _ ClientFrame.toJson .empty chunks frames (fun h => by cases h)
      (fun f hf => (hall f hf).spelled _ f.decoder_toJson) ?_
    simpa [unread, Inbox.empty] using hc.1
  · refine readAll_encoded _ ServerFrame.toJson .empty chunks frames (fun h => by cases h)
      (fun f hf => (hall f hf).spelled _ f.decoder_toJson) ?_
    simpa [unread, Inbox.empty] using hc.1

/-- The frames of a call and of its reply, which come byte by byte. -/
theorem streams_round_trip_bytewise :
    readAll ClientFrame.decoder .empty
        (([ClientFrame.call "/Echo" ⟨[("k", "ü")]⟩,
            .message (.object [("content", .string "a\"b\n"), ("n", .int64 (-3))]),
            .halfClose].flatMap fun f => encode f.toJson).map fun b => [b]) =
      ⟨[.call "/Echo" ⟨[("k", "ü")]⟩,
          .message (.object [("content", .string "a\"b\n"), ("n", .int64 (-3))]), .halfClose],
        [ClientFrame.call "/Echo" ⟨[("k", "ü")]⟩,
          .message (.object [("content", .string "a\"b\n"), ("n", .int64 (-3))]),
          .halfClose].map fun f => encode f.toJson, none, ⟨[], [], true⟩⟩ ∧
    readAll ServerFrame.decoder .empty
        (([ServerFrame.trailers ⟨.notFound, "no", [⟨"u", .array [.null]⟩]⟩ ⟨[("t", "")]⟩].flatMap
          fun f => encode f.toJson).map fun b => [b]) =
      ⟨[.trailers ⟨.notFound, "no", [⟨"u", .array [.null]⟩]⟩ ⟨[("t", "")]⟩],
        [ServerFrame.trailers ⟨.notFound, "no", [⟨"u", .array [.null]⟩]⟩ ⟨[("t", "")]⟩].map
          fun f => encode f.toJson, none, ⟨[], [], true⟩⟩ := by
  have hcut (bytes : List UInt8) : IsChunking bytes (bytes.map fun b => [b]) := by
    constructor
    · induction bytes with
      | nil => rfl
      | cons b bytes ih => simp [ih]
    · simp
  refine ⟨streams_round_trip.1 _ _ ?_ (hcut _), streams_round_trip.2 _ _ ?_ (hcut _)⟩
  · intro f hf
    simp only [List.mem_cons, List.not_mem_nil, or_false] at hf
    rcases hf with rfl | rfl | rfl <;> refine ⟨rfl, ?_, by decide, by decide +kernel⟩ <;>
      simp [IntegersOnly, ClientFrame.toJson, Metadata.toJson, numbers, numbersMembers,
        numbersItems, int64]
  · intro f hf
    obtain rfl := List.mem_singleton.mp hf
    refine ⟨rfl, ?_, by decide, by decide +kernel⟩
    intro n hn
    have hcode : numbers (.int32 Code.notFound.toInt32) = [.integer ⟨5, by decide⟩] := rfl
    simp only [ServerFrame.toJson, Status.toJson, Detail.toJson, Metadata.toJson, Metadata.isEmpty,
      numbers, numbersMembers, numbersItems, List.isEmpty_cons, List.map_cons, List.map_nil,
      List.cons_append, List.nil_append, List.append_nil, if_false, Bool.false_eq_true, hcode,
      List.mem_singleton] at hn
    exact ⟨_, hn⟩

end Wire
end EchoServer
