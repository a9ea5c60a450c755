import EchoServer.Wire.Inbox

namespace EchoServer.Wire

open Json (Decoder)

theorem splitLine_cons_of_ne (b : UInt8) (bytes : List UInt8)
    (h : ∀ rest, (b == 0x0D) = true → bytes = 0x0A :: rest → False) :
    splitLine (b :: bytes) = (splitLine bytes).map fun (line, rest) => (b :: line, rest) := by
  rw [splitLine]
  exact h

/-- The bytes are the line, its end, and what is behind it. -/
theorem eq_append_of_splitLine (bytes line rest : List UInt8)
    (h : splitLine bytes = some (line, rest)) : bytes = line ++ 0x0D :: 0x0A :: rest := by
  fun_induction splitLine bytes generalizing line with
  | case1 => cases h
  | case2 b tail hb =>
    obtain ⟨rfl, rfl⟩ := by simpa using h
    simp only [beq_iff_eq] at hb
    simp only [hb, List.nil_append]
  | case3 b bytes hb ih =>
    obtain ⟨⟨l, r⟩, hl, he⟩ := Option.map_eq_some_iff.mp h
    obtain ⟨rfl, rfl⟩ := by simpa using he
    rw [ih l hl, List.cons_append]

/-- A line that has ended is not changed by what follows. -/
theorem splitLine_append (bytes line rest more : List UInt8)
    (h : splitLine bytes = some (line, rest)) :
    splitLine (bytes ++ more) = some (line, rest ++ more) := by
  fun_induction splitLine bytes generalizing line with
  | case1 => cases h
  | case2 b tail hb =>
    obtain ⟨rfl, rfl⟩ := by simpa using h
    simp only [List.cons_append, splitLine, hb]
  | case3 b bytes hb ih =>
    obtain ⟨⟨l, r⟩, hl, he⟩ := Option.map_eq_some_iff.mp h
    obtain ⟨rfl, rfl⟩ := by simpa using he
    rw [List.cons_append, splitLine_cons_of_ne, ih l hl]
    · rfl
    · intro tail hcr hlf
      cases bytes with
      | nil => cases hl
      | cons c cs => exact hb cs hcr (by rw [List.cons_append] at hlf; rw [(List.cons.inj hlf).1])

/-- A line ends within the first bytes already, if they reach behind its end. -/
theorem splitLine_of_append (bytes more line rest : List UInt8)
    (h : splitLine (bytes ++ more) = some (line, rest)) (hlen : line.length + 2 ≤ bytes.length) :
    ∃ tail, splitLine bytes = some (line, tail) := by
  fun_induction splitLine bytes generalizing line with
  | case1 => simp at hlen
  | case2 b tail hb =>
    simp only [List.cons_append, splitLine, hb, Option.some.injEq, Prod.mk.injEq] at h
    exact ⟨tail, by rw [← h.1]⟩
  | case3 b bytes hb ih =>
    rw [List.cons_append, splitLine_cons_of_ne] at h
    · obtain ⟨⟨l, r⟩, hl, he⟩ := Option.map_eq_some_iff.mp h
      obtain ⟨rfl, rfl⟩ := by simpa using he
      obtain ⟨tail, ht⟩ := ih l hl (by simpa using hlen)
      exact ⟨tail, by rw [ht]; rfl⟩
    · intro tail hcr hlf
      cases bytes with
      | nil => simp at hlen
      | cons c cs => exact hb cs hcr (by rw [List.cons_append] at hlf; rw [(List.cons.inj hlf).1])

theorem splitLine_ended (line rest : List UInt8) (h : ∀ b ∈ line, b ≠ 0x0D) :
    splitLine (line ++ 0x0D :: 0x0A :: rest) = some (line, rest) := by
  induction line with
  | nil => rfl
  | cons b line ih =>
    rw [List.cons_append, splitLine_cons_of_ne, ih fun c hc => h c (by simp [hc])]
    · rfl
    · intro tail hcr
      exact absurd (by simpa using hcr) (h b (by simp))

/-- Bytes in which a line has not ended, where with more of them it has, hold no more than the
line and the first half of its end. -/
theorem length_le_of_splitLine_none (bytes more line rest : List UInt8)
    (hn : splitLine bytes = none) (h : splitLine (bytes ++ more) = some (line, rest)) :
    bytes.length ≤ line.length + 1 := by
  apply Nat.le_of_not_lt
  intro hlen
  obtain ⟨tail, ht⟩ := splitLine_of_append bytes more line rest h hlen
  rw [hn] at ht
  cases ht

/-- A length line that a reader cuts off if it comes in two parts, and that then says something
else than in one. -/
def CutShort (line : List UInt8) : Prop :=
  maxHeaderLength ≤ line.length ∧
    (lengthOf? line ≠ none ∨ Text.lossy line ≠ Text.lossy (line.take maxHeaderLength))

section
variable {α : Type} (frame : Decoder α)

/-- A frame is a length line, its end, and as many bytes as the line says. -/
theorem parse_complete_iff (bytes tail : List UInt8) (f : α) (n : Nat) :
    parse frame bytes = .ok (.complete f n tail) ↔
      ∃ line rest length, splitLine bytes = some (line, rest) ∧ lengthOf? line = some length ∧
        length ≤ maxFrameSize ∧ length ≤ rest.length ∧ frame.ofText (rest.take length) = .ok f ∧
        n = line.length + 2 + length ∧ tail = rest.drop length := by
  constructor
  · intro h
    unfold parse at h
    split at h
    · split at h <;> cases h
    · next line rest hs =>
      split at h
      · cases h
      · next length hl =>
        split at h
        · cases h
        split at h
        · cases h
        split at h
        · next f' hf =>
          obtain ⟨rfl, rfl, rfl⟩ := by simpa using h
          exact ⟨line, rest, length, hs, hl, by omega, by omega, hf, rfl, rfl⟩
        · cases h
  · rintro ⟨line, rest, length, hs, hl, hmax, hrest, hf, rfl, rfl⟩
    unfold parse
    simp only [hs, hl, hf, Nat.not_lt.mpr hmax, Nat.not_lt.mpr hrest, if_false]

/-- What is wrong with bytes that are no frame. -/
theorem parse_error_iff (bytes : List UInt8) (e : FrameError) :
    parse frame bytes = .error e ↔
      (splitLine bytes = none ∧ maxHeaderLength < bytes.length ∧
        e = .invalidLength (Text.lossy (bytes.take maxHeaderLength))) ∨
      ∃ line rest, splitLine bytes = some (line, rest) ∧
        ((lengthOf? line = none ∧ e = .invalidLength (Text.lossy line)) ∨
        ∃ length, lengthOf? line = some length ∧
          ((maxFrameSize < length ∧ e = .tooLarge length) ∨
          (length ≤ maxFrameSize ∧ length ≤ rest.length ∧
            ∃ d, frame.ofText (rest.take length) = .error d ∧ e = .invalidBody d))) := by
  constructor
  · intro h
    unfold parse at h
    split at h
    · next hs =>
      split at h
      · next hlen => exact Or.inl ⟨hs, hlen, by simpa using h.symm⟩
      · cases h
    · next line rest hs =>
      refine Or.inr ⟨line, rest, hs, ?_⟩
      split at h
      · next hl => exact Or.inl ⟨hl, by simpa using h.symm⟩
      · next length hl =>
        refine Or.inr ⟨length, hl, ?_⟩
        split at h
        · next hmax => exact Or.inl ⟨hmax, by simpa using h.symm⟩
        split at h
        · cases h
        split at h
        · cases h
        · next d hd => exact Or.inr ⟨by omega, by omega, d, hd, by simpa using h.symm⟩
  · unfold parse
    rintro (⟨hs, hlen, rfl⟩ | ⟨line, rest, hs, hcase⟩)
    · simp only [hs, hlen, if_true]
    · rcases hcase with ⟨hl, rfl⟩ | ⟨length, hl, ⟨hmax, rfl⟩ | ⟨hmax, hrest, d, hd, rfl⟩⟩
      · simp only [hs, hl]
      · simp only [hs, hl, hmax, if_true]
      · simp only [hs, hl, hd, Nat.not_lt.mpr hmax, Nat.not_lt.mpr hrest, if_false]

/-- A complete frame stays the same frame when more bytes come. -/
theorem parse_append_complete (bytes tail more : List UInt8) (f : α) (n : Nat)
    (h : parse frame bytes = .ok (.complete f n tail)) :
    parse frame (bytes ++ more) = .ok (.complete f n (tail ++ more)) := by
  obtain ⟨line, rest, length, hs, hl, hmax, hrest, hf, hn, rfl⟩ :=
    (parse_complete_iff frame bytes tail f n).mp h
  refine (parse_complete_iff frame _ _ f n).mpr ⟨line, rest ++ more, length,
    splitLine_append bytes line rest more hs, hl, hmax, ?_, ?_, hn, ?_⟩
  · rw [List.length_append]
    omega
  · rw [List.take_append_of_le_length hrest]
    exact hf
  · rw [List.drop_append_of_le_length hrest]

/-- A frame takes up the bytes in front of its rest, and there are some. -/
theorem parse_complete_bytes (bytes tail : List UInt8) (f : α) (n : Nat)
    (h : parse frame bytes = .ok (.complete f n tail)) :
    bytes.drop n = tail ∧ n + tail.length = bytes.length ∧ 2 ≤ n := by
  obtain ⟨line, rest, length, hs, hl, hmax, hrest, hf, rfl, rfl⟩ :=
    (parse_complete_iff frame bytes tail f n).mp h
  have hb : bytes = (line ++ [0x0D, 0x0A]) ++ rest := by
    simpa using eq_append_of_splitLine bytes line rest hs
  refine ⟨?_, ?_, by omega⟩
  · rw [hb, show line.length + 2 = (line ++ [0x0D, 0x0A]).length from by simp, List.drop_append,
      List.drop_of_length_le (by omega), List.nil_append]
    congr 1
    omega
  · rw [hb]
    simp only [List.length_append, List.length_drop, List.length_cons, List.length_nil]
    omega

/-- A frame is found as soon as its bytes are there. -/
theorem parse_of_append_complete (bytes more tail : List UInt8) (f : α) (n : Nat)
    (h : parse frame (bytes ++ more) = .ok (.complete f n tail)) (hn : n ≤ bytes.length) :
    parse frame bytes = .ok (.complete f n (bytes.drop n)) := by
  obtain ⟨line, rest, length, hs, hl, hmax, hrest, hf, rfl, rfl⟩ :=
    (parse_complete_iff frame _ tail f n).mp h
  obtain ⟨front, hfront⟩ := splitLine_of_append bytes more line rest hs (by omega)
  have hb : bytes = line ++ 0x0D :: 0x0A :: front := eq_append_of_splitLine bytes line front hfront
  have hr : rest = front ++ more := by
    have := splitLine_append bytes line front more hfront
    rw [hs] at this
    simpa using this
  have hlen : length ≤ front.length := by
    have := congrArg List.length hb
    simp only [List.length_append, List.length_cons] at this
    omega
  refine (parse_complete_iff frame _ _ f _).mpr ⟨line, front, length, hfront, hl, hmax, hlen, ?_,
    rfl, ?_⟩
  · rwa [hr, List.take_append_of_le_length hlen] at hf
  · rw [hb, show line ++ 0x0D :: 0x0A :: front = (line ++ [0x0D, 0x0A]) ++ front from by simp,
      show line.length + 2 = (line ++ [0x0D, 0x0A]).length from by simp, List.drop_append,
      List.drop_of_length_le (by omega), List.nil_append]
    congr 1
    omega

/-- A failure stays the same failure when more bytes come, unless it was found in a length line
whose end had not come: then the line that the bytes turn out to begin with is cut short. -/
theorem parse_append_error (bytes more : List UInt8) (e : FrameError)
    (h : parse frame bytes = .error e) :
    parse frame (bytes ++ more) = .error e ∨
      ∃ line rest, splitLine (bytes ++ more) = some (line, rest) ∧ CutShort line := by
  rcases (parse_error_iff frame bytes e).mp h with ⟨hs, hlen, rfl⟩ | ⟨line, rest, hs, hcase⟩
  · have htake : (bytes ++ more).take maxHeaderLength = bytes.take maxHeaderLength :=
      List.take_append_of_le_length (Nat.le_of_lt hlen)
    cases hm : splitLine (bytes ++ more) with
    | none =>
      left
      refine (parse_error_iff frame _ _).mpr (Or.inl ⟨hm, ?_, by rw [htake]⟩)
      rw [List.length_append]
      omega
    | some split =>
      obtain ⟨line, rest⟩ := split
      have hline : maxHeaderLength ≤ line.length := by
        have := length_le_of_splitLine_none bytes more line rest hs hm
        omega
      have hfront : line.take maxHeaderLength = bytes.take maxHeaderLength := by
        rw [← htake, eq_append_of_splitLine _ line rest hm, List.take_append_of_le_length hline]
      -- the line has come: it is refused as before if it spells no length and has the same text
      by_cases hcut : lengthOf? line ≠ none ∨
          Text.lossy line ≠ Text.lossy (line.take maxHeaderLength)
      · exact Or.inr ⟨line, rest, rfl, hline, hcut⟩
      · have hsame := not_or.mp hcut
        refine Or.inl ((parse_error_iff frame _ _).mpr (Or.inr ⟨line, rest, hm, Or.inl ⟨?_, ?_⟩⟩))
        · exact Decidable.not_not.mp hsame.1
        · rw [Decidable.not_not.mp hsame.2, hfront]
  · left
    refine (parse_error_iff frame _ _).mpr (Or.inr ⟨line, rest ++ more,
      splitLine_append bytes line rest more hs, ?_⟩)
    rcases hcase with hl | ⟨length, hl, hmax | ⟨hmax, hrest, d, hd, he⟩⟩
    · exact Or.inl hl
    · exact Or.inr ⟨length, hl, Or.inl hmax⟩
    · refine Or.inr ⟨length, hl, Or.inr ⟨hmax, ?_, d, ?_, he⟩⟩
      · rw [List.length_append]
        omega
      · rw [List.take_append_of_le_length hrest]
        exact hd

end

end EchoServer.Wire
