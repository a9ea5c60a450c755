import EchoServer.Proofs.Wire.RoundTrip

namespace EchoServer.Wire

open Json (Decoder IntegersOnly numbers numbersMembers)

section
variable {α : Type} (frame : Decoder α)

theorem readAll_first (c : List UInt8) (rest : List (List UInt8)) (hc : c ≠ []) :
    readAll frame .empty (c :: rest) = readAll frame ⟨c, [], false⟩ rest := by
  have hwait : Inbox.empty.poll frame Inbox.empty.arrived.length = none :=
    (poll_eq_none_iff frame .empty _).mpr ⟨rfl, rfl, rfl⟩
  have hlen : 0 < c.length := List.length_pos_iff.mpr hc
  have hmore : (Inbox.empty.receive c).poll frame (Inbox.empty.receive c).arrived.length =
      some (none, ⟨c, [], false⟩) := by
    refine (poll_eq_more_iff frame _ _ _).mpr ⟨rfl, ?_, ?_⟩
    · simpa [Inbox.receive, Inbox.empty] using hc
    · simp [Inbox.receive, Inbox.empty, Inbox.take, Nat.max_eq_left hlen]
  rw [readAll_of_wait frame _ c rest hwait, readAll_of_more frame _ _ rest hmore]

theorem readAll_single (bytes : List UInt8) (h : bytes ≠ []) :
    ((readAll frame .empty [bytes]).frames, (readAll frame .empty [bytes]).failure) =
      outcome frame bytes := by
  rw [readAll_first frame bytes [] h,
    readAll_eq_outcome frame ⟨bytes, [], false⟩ [] (fun _ => rfl) (Or.inr ⟨rfl, rfl⟩)]
  simp [unread]

/-- The first 21 bytes of a line that is cut short look like a length line that is too long. -/
theorem parse_front_of_cutShort (front more line rest : List UInt8)
    (hs : splitLine (front ++ more) = some (line, rest)) (hcut : CutShort line)
    (hlen : front.length = maxHeaderLength + 1) :
    parse frame front = .error (.invalidLength (Text.lossy (line.take maxHeaderLength))) := by
  have hline : maxHeaderLength ≤ line.length := hcut.1
  have hall := eq_append_of_splitLine _ line rest hs
  refine (parse_error_iff frame front _).mpr (Or.inl ⟨?_, by omega, ?_⟩)
  · cases hf : splitLine front with
    | none => rfl
    | some split =>
      obtain ⟨l, r⟩ := split
      have hsame := splitLine_append front l r more hf
      rw [hs] at hsame
      obtain ⟨rfl, -⟩ := by simpa using hsame
      have := congrArg List.length (eq_append_of_splitLine front line r hf)
      simp only [List.length_append, List.length_cons] at this
      omega
  · have htake : (front ++ more).take maxHeaderLength = line.take maxHeaderLength := by
      rw [hall, List.take_append_of_le_length hline]
    rw [← htake, List.take_append_of_le_length (by omega)]

/-- A stream that begins with a line that is cut short does not say that its length is invalid, or
not by the words that go with the first twenty bytes. -/
theorem outcome_ne_of_cutShort (bytes line rest : List UInt8)
    (hs : splitLine bytes = some (line, rest)) (hcut : CutShort line) :
    outcome frame bytes ≠
      ([], some (.invalidLength (Text.lossy (line.take maxHeaderLength)))) := by
  intro he
  cases hp : parse frame bytes with
  | error e =>
    rw [outcome_of_error frame bytes e hp] at he
    obtain rfl : e = .invalidLength (Text.lossy (line.take maxHeaderLength)) := by simpa using he
    rcases (parse_error_iff frame bytes _).mp hp with ⟨hn, -⟩ | ⟨l, r, hl, hcase⟩
    · rw [hs] at hn
      cases hn
    · obtain ⟨rfl, rfl⟩ : line = l ∧ rest = r := by simpa [hs] using hl
      rcases hcase with ⟨hnone, hlossy⟩ | ⟨length, -, ⟨-, hbad⟩ | ⟨-, -, d, -, hbad⟩⟩
      · rcases hcut.2 with hsome | hne
        · exact hsome hnone
        · exact hne (by simpa using hlossy.symm)
      · cases hbad
      · cases hbad
  | ok p =>
    cases p with
    | complete f n tail =>
      rw [outcome_of_complete frame bytes tail f n hp] at he
      simp at he
    | incomplete =>
      rw [outcome_of_incomplete frame bytes hp] at he
      split at he <;> simp at he

/-- A first chunk that ends 21 bytes behind the beginning of a line that is cut short spoils the
reading. -/
theorem readAll_ne_outcome (bytes tail line rest : List UInt8) (hb : Boundary frame bytes tail)
    (hs : splitLine tail = some (line, rest)) (hcut : CutShort line) (front more : List UInt8)
    (hsplit : front ++ more = bytes)
    (hlen : front.length + tail.length = bytes.length + (maxHeaderLength + 1)) :
    ((readAll frame ⟨front, [], false⟩ [more]).frames,
      (readAll frame ⟨front, [], false⟩ [more]).failure) ≠ outcome frame bytes := by
  -- whole frames before the line are read from both sides, so they cancel
  induction hb generalizing front with
  | start bytes =>
    subst hsplit
    have hp := parse_front_of_cutShort frame front more line rest hs hcut (by omega)
    rw [readAll_of_failed frame _ _ _ _
      ((poll_eq_failed_iff frame ⟨front, [], false⟩ _ _ _).mpr ⟨rfl, Or.inl hp⟩)]
    exact (outcome_ne_of_cutShort frame _ line rest hs hcut).symm
  | next bytes rest' tail f n hp ht ih =>
    obtain ⟨hdrop, hn, -⟩ := parse_complete_bytes frame bytes rest' f n hp
    have hle := ht.length_le
    subst hsplit
    have hfront : n ≤ front.length := by omega
    have hp' := parse_of_append_complete frame front more rest' f n hp hfront
    rw [readAll_of_frame frame _ _ _ f
      ((poll_eq_frame_iff frame ⟨front, [], false⟩ _ _ f).mpr ⟨n, _, hp', rfl⟩),
      outcome_of_complete frame _ rest' f n hp]
    have hrest : front.drop n ++ more = rest' := by
      rw [← hdrop, List.drop_append_of_le_length hfront]
    have := ih hs (front.drop n) hrest (by rw [List.length_drop]; omega)
    intro he
    simp only [Prod.mk.injEq, List.cons.injEq, true_and] at he
    exact this (Prod.ext he.1 he.2)

/-- Reading does not depend on the chunks in which a stream comes, exactly if no length line is
cut short on the way. -/
theorem reading_ignores_chunks_iff (bytes : List UInt8) :
    (∀ c d, IsChunking bytes c → IsChunking bytes d →
      (readAll frame .empty c).frames = (readAll frame .empty d).frames ∧
        (readAll frame .empty c).failure = (readAll frame .empty d).failure) ↔
      ¬ Fragile frame bytes := by
  constructor
  · rintro hsame ⟨tail, line, rest, hb, hs, hcut⟩
    have htail := congrArg List.length (eq_append_of_splitLine tail line rest hs)
    simp only [List.length_append, List.length_cons] at htail
    have hle := hb.length_le
    have hline : 20 ≤ line.length := hcut.1
    -- the second chunk begins 21 bytes behind the beginning of the line
    have hfront : (bytes.take (bytes.length - tail.length + 21)).length =
        bytes.length - tail.length + 21 := by
      rw [List.length_take]
      omega
    have hmore : (bytes.drop (bytes.length - tail.length + 21)).length = tail.length - 21 := by
      rw [List.length_drop]
      omega
    have hne : bytes ≠ [] := List.ne_nil_of_length_pos (by omega)
    have hfne : bytes.take (bytes.length - tail.length + 21) ≠ [] :=
      List.ne_nil_of_length_pos (by omega)
    have hmne : bytes.drop (bytes.length - tail.length + 21) ≠ [] :=
      List.ne_nil_of_length_pos (by omega)
    obtain ⟨hframes, hfailure⟩ := hsame
      [bytes.take (bytes.length - tail.length + 21), bytes.drop (bytes.length - tail.length + 21)]
      [bytes] ⟨by simp, by simp [hfne.symm, hmne.symm]⟩ ⟨by simp, by simp [hne.symm]⟩
    refine readAll_ne_outcome frame bytes tail line rest hb hs hcut _ _
      (List.take_append_drop (bytes.length - tail.length + 21) bytes) ?_ ?_
    · rw [hfront]
      simp only [maxHeaderLength]
      omega
    · rw [← readAll_first frame _ _ hfne, hframes, hfailure, readAll_single frame bytes hne]
  · intro hsafe c d hc hd
    have hread (chunks : List (List UInt8)) (h : IsChunking bytes chunks) :
        ((readAll frame .empty chunks).frames, (readAll frame .empty chunks).failure) =
          outcome frame bytes := by
      have hall : unread .empty chunks = bytes := by simpa [unread, Inbox.empty] using h.1
      rw [readAll_eq_outcome frame .empty chunks (fun hclosed => by cases hclosed)
        (Or.inl (by rwa [hall])), hall]
    have := (hread c hc).trans (hread d hd).symm
    exact ⟨congrArg Prod.fst this, congrArg Prod.snd this⟩

end

/-- A `cancel` frame whose length is spelled with twenty digits. -/
def paddedCancel : List UInt8 := List.replicate 18 0x30 ++ encode ClientFrame.cancel.toJson

/-- In one piece `paddedCancel` is a frame; cut between CR and LF it is an invalid length. -/
theorem paddedCancel_depends_on_chunks :
    ¬ ∀ c d, IsChunking paddedCancel c → IsChunking paddedCancel d →
      (readAll ClientFrame.decoder .empty c).frames =
          (readAll ClientFrame.decoder .empty d).frames ∧
        (readAll ClientFrame.decoder .empty c).failure =
          (readAll ClientFrame.decoder .empty d).failure := by
  intro h
  let line : List UInt8 := List.replicate 18 0x30 ++ [0x31, 0x37]
  let body : List UInt8 := ClientFrame.cancel.toJson.print
  have hsplit : splitLine paddedCancel = some (line, body) := by decide +kernel
  have hbody : ClientFrame.decoder.ofText body = .ok .cancel :=
    (Sendable.spelled _ ⟨rfl, by simp [IntegersOnly, ClientFrame.toJson, numbers, numbersMembers],
      by decide, by decide +kernel⟩ ClientFrame.cancel.decoder_toJson).2
  have hwhole : parse ClientFrame.decoder paddedCancel = .ok (.complete .cancel 39 []) :=
    (parse_complete_iff _ _ _ _ _).mpr ⟨line, body, 17, hsplit, by decide +kernel, by decide,
      by decide +kernel, hbody, rfl, by decide +kernel⟩
  have hcut : CutShort line := ⟨by decide, Or.inl (by decide +kernel)⟩
  have hfront := parse_front_of_cutShort ClientFrame.decoder (paddedCancel.take 21)
    (paddedCancel.drop 21) line body hsplit hcut (by decide)
  have hone := readAll_single ClientFrame.decoder paddedCancel (by decide)
  rw [outcome_of_complete _ _ _ _ _ hwhole, outcome_of_incomplete _ [] rfl] at hone
  have htwo : readAll ClientFrame.decoder .empty [paddedCancel.take 21, paddedCancel.drop 21] =
      ⟨[], [], some (.invalidLength (Text.lossy (line.take maxHeaderLength))),
        ⟨paddedCancel.take 21, [], false⟩⟩ := by
    rw [readAll_first _ _ _ (by decide)]
    exact readAll_of_failed _ _ _ _ _ ((poll_eq_failed_iff _ _ _ _ _).mpr ⟨rfl, Or.inl hfront⟩)
  have hsame := (h [paddedCancel] [paddedCancel.take 21, paddedCancel.drop 21]
    ⟨by simp, by decide⟩ ⟨by simp, by decide⟩).1
  rw [(Prod.mk.inj hone).1, htwo] at hsame
  cases hsame

end EchoServer.Wire
