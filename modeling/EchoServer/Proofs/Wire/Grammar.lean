import Mathlib
import EchoServer.Proofs.Wire.RoundTrip

/-! `IsFrame`, `IsOversized`, `IsPartial` and `IsSpoiled` say what bytes begin with, in terms of the
bytes alone. Parsing tells these apart and takes everything else for an invalid length. -/
namespace EchoServer.Wire

open Json (Decoder isDigit)

/-- The bytes at the end of a length line. -/
def newline : List UInt8 := [0x0D, 0x0A]

/-- The number that decimal digits spell, however many they are. -/
def numeral (line : List UInt8) : Nat := line.foldl (fun n b => 10 * n + (b.toNat - 0x30)) 0

/-- The line is made of decimal digits, and they count `n`. -/
structure Counts (line : List UInt8) (n : Nat) : Prop where
  nonempty : line ≠ []
  digits : ∀ b ∈ line, 0x30 ≤ b ∧ b ≤ 0x39
  value : numeral line = n

section
variable {α : Type} (frame : Decoder α)

/-- The bytes begin with a frame that takes `size` of them, and `rest` is behind it. -/
def IsFrame (bytes : List UInt8) (f : α) (size : Nat) (rest : List UInt8) : Prop :=
  ∃ line body, bytes = line ++ newline ++ body ++ rest ∧ Counts line body.length ∧
    body.length ≤ maxFrameSize ∧ frame.ofText body = .ok f ∧ size = line.length + 2 + body.length

/-- The bytes begin with a length that fits a word and is too large for a frame. -/
def IsOversized (bytes : List UInt8) (n : Nat) : Prop :=
  ∃ line rest, bytes = line ++ newline ++ rest ∧ Counts line n ∧ maxFrameSize < n ∧
    n < 18446744073709551616

/-- The bytes are too few to tell, or fewer than their length line says. -/
def IsPartial (bytes : List UInt8) : Prop :=
  (¬ newline <:+: bytes ∧ bytes.length ≤ maxHeaderLength) ∨
    ∃ line n rest, bytes = line ++ newline ++ rest ∧ Counts line n ∧ n ≤ maxFrameSize ∧
      rest.length < n

/-- The bytes begin with a body of the length that its line says, and the body is no frame. -/
def IsSpoiled (bytes : List UInt8) (e : Json.DecodeError) : Prop :=
  ∃ line body rest, bytes = line ++ newline ++ body ++ rest ∧ Counts line body.length ∧
    body.length ≤ maxFrameSize ∧ frame.ofText body = .error e

theorem isDigit_iff_range (b : UInt8) : isDigit b = true ↔ 0x30 ≤ b ∧ b ≤ 0x39 := by
  simp [isDigit]

/-- The value of digits as characters is their value as bytes. -/
theorem ofDigitChars_eq_numeral (line : List UInt8) :
    Nat.ofDigitChars 10 (line.map fun b => Char.ofNat b.toNat) 0 = numeral line := by
  -- a byte is the number of a character, as it is below 256
  have hchar (b : UInt8) : (Char.ofNat b.toNat).toNat = b.toNat := by
    have hb : b.toNat < 256 := b.toNat_lt
    have hvalid : b.toNat.isValidChar := Or.inl (by omega)
    simp [Char.ofNat, Char.ofNatAux, Char.toNat, hvalid]
  -- the fold is compared from any number on, as the digits before are in it
  have hfold (n : Nat) : Nat.ofDigitChars 10 (line.map fun b => Char.ofNat b.toNat) n =
      line.foldl (fun n b => 10 * n + (b.toNat - 0x30)) n := by
    induction line generalizing n with
    | nil => rfl
    | cons b line ih =>
      rw [List.map_cons, Nat.ofDigitChars_cons, List.foldl_cons, ih, hchar]
      rfl
  exact hfold 0

/-- A length is read from a line exactly when the line counts it and it fits a word. -/
theorem lengthOf?_eq_some_iff (line : List UInt8) (n : Nat) :
    lengthOf? line = some n ↔ Counts line n ∧ n < 18446744073709551616 := by
  unfold lengthOf?
  rw [ofDigitChars_eq_numeral]
  constructor
  · intro h
    split at h
    · rename_i hline
      rw [Bool.and_eq_true, List.all_eq_true] at hline
      dsimp only at h
      split at h
      · obtain rfl := Option.some.inj h
        refine ⟨⟨by simpa using hline.1, ?_, rfl⟩, ‹_›⟩
        intro b hb
        exact (isDigit_iff_range b).mp (hline.2 b hb)
      · cases h
    · cases h
  · rintro ⟨⟨hne, hdigits, rfl⟩, hlt⟩
    have hall : line.all isDigit = true := by
      apply List.all_eq_true.mpr
      intro b hb
      exact (isDigit_iff_range b).mpr (hdigits b hb)
    simp [hne, hall, hlt]

/-- Digits hold no CR, so their line ends at the first CR LF behind them. -/
theorem splitLine_of_counts {line : List UInt8} {n : Nat} (h : Counts line n)
    (rest : List UInt8) : splitLine (line ++ newline ++ rest) = some (line, rest) := by
  rw [List.append_assoc]
  apply splitLine_ended line rest
  intro b hb
  exact not_newline_of_digit ((isDigit_iff_range b).mpr (h.digits b hb))

/-- A line is found in bytes exactly when CR LF stands somewhere in them. -/
theorem splitLine_eq_none_iff (bytes : List UInt8) :
    splitLine bytes = none ↔ ¬ newline <:+: bytes := by
  constructor
  · rintro hnone ⟨front, back, rfl⟩
    -- on the way to that CR LF there is none before it, or the search has ended there
    induction front with
    | nil => cases hnone
    | cons b front ih =>
      apply ih
      rw [List.cons_append, List.cons_append] at hnone
      by_cases hb : ∃ rest, (b == 0x0D) = true ∧ front ++ newline ++ back = 0x0A :: rest
      · obtain ⟨rest, hcr, hlf⟩ := hb
        rw [hlf, splitLine] at hnone
        · cases hnone
        · exact hcr
      · rw [splitLine_cons_of_ne b _ fun rest hcr hlf => hb ⟨rest, hcr, hlf⟩] at hnone
        exact Option.map_eq_none_iff.mp hnone
  · intro hno
    cases hs : splitLine bytes with
    | none => rfl
    | some split =>
      obtain ⟨line, rest⟩ := split
      have heq : bytes = line ++ newline ++ rest := by
        rw [eq_append_of_splitLine bytes line rest hs, List.append_assoc]
        rfl
      exact absurd ⟨line, rest, heq.symm⟩ hno

/-- Bytes with a length line in front of them, as they are found and as they are spelled. -/
theorem found_iff_spelled (bytes : List UInt8) (P : List UInt8 → Nat → List UInt8 → Prop) :
    (∃ line rest n, splitLine bytes = some (line, rest) ∧ lengthOf? line = some n ∧
        P line n rest) ↔
      ∃ line rest n, bytes = line ++ newline ++ rest ∧ Counts line n ∧
        n < 18446744073709551616 ∧ P line n rest := by
  constructor
  · rintro ⟨line, rest, n, hs, hl, hP⟩
    obtain ⟨hcounts, hlt⟩ := (lengthOf?_eq_some_iff line n).mp hl
    refine ⟨line, rest, n, ?_, hcounts, hlt, hP⟩
    rw [eq_append_of_splitLine bytes line rest hs, List.append_assoc]
    rfl
  · rintro ⟨line, rest, n, rfl, hcounts, hlt, hP⟩
    exact ⟨line, rest, n, splitLine_of_counts hcounts rest,
      (lengthOf?_eq_some_iff line n).mpr ⟨hcounts, hlt⟩, hP⟩

theorem lt_word_of_allowed {n : Nat} (h : n ≤ maxFrameSize) : n < 18446744073709551616 :=
  Nat.lt_of_le_of_lt h (by decide)

theorem parse_complete_iff_isFrame (bytes rest : List UInt8) (f : α) (size : Nat) :
    parse frame bytes = .ok (.complete f size rest) ↔ IsFrame frame bytes f size rest := by
  rw [parse_complete_iff]
  constructor
  · rintro ⟨line, tail, n, hs, hl, hmax, hlen, hf, rfl, rfl⟩
    obtain ⟨hcounts, -⟩ := (lengthOf?_eq_some_iff line n).mp hl
    have hbody : (tail.take n).length = n := List.length_take_of_le hlen
    refine ⟨line, tail.take n, ?_, ?_, ?_, hf, ?_⟩
    · rw [List.append_assoc, List.take_append_drop, List.append_assoc]
      exact eq_append_of_splitLine bytes line tail hs
    · rw [hbody]
      exact hcounts
    · omega
    · omega
  · rintro ⟨line, body, rfl, hcounts, hmax, hf, rfl⟩
    refine ⟨line, body ++ rest, body.length, ?_, ?_, hmax, ?_, ?_, rfl, ?_⟩
    · rw [List.append_assoc]
      exact splitLine_of_counts hcounts (body ++ rest)
    · exact (lengthOf?_eq_some_iff line _).mpr ⟨hcounts, lt_word_of_allowed hmax⟩
    · simp
    · rwa [List.take_left]
    · rw [List.drop_left]

theorem parse_tooLarge_iff (bytes : List UInt8) (n : Nat) :
    parse frame bytes = .error (.tooLarge n) ↔ IsOversized bytes n := by
  have hfound := found_iff_spelled bytes fun _ m _ => maxFrameSize < m ∧ n = m
  rw [parse_error_iff]
  constructor
  · rintro (⟨-, -, he⟩ | ⟨line, rest, hs, ⟨-, he⟩ | ⟨m, hl, ⟨hmax, he⟩ | ⟨-, -, d, -, he⟩⟩⟩)
    · cases he
    · cases he
    · obtain ⟨line, rest, m, heq, hcounts, hlt, hmax, rfl⟩ :=
        hfound.mp ⟨line, rest, m, hs, hl, hmax, FrameError.tooLarge.inj he⟩
      exact ⟨line, rest, heq, hcounts, hmax, hlt⟩
    · cases he
  · rintro ⟨line, rest, heq, hcounts, hmax, hlt⟩
    obtain ⟨line, rest, m, hs, hl, hmax, rfl⟩ :=
      hfound.mpr ⟨line, rest, n, heq, hcounts, hlt, hmax, rfl⟩
    exact Or.inr ⟨line, rest, hs, Or.inr ⟨n, hl, Or.inl ⟨hmax, rfl⟩⟩⟩

theorem parse_invalidBody_iff (bytes : List UInt8) (e : Json.DecodeError) :
    parse frame bytes = .error (.invalidBody e) ↔ IsSpoiled frame bytes e := by
  rw [parse_error_iff]
  constructor
  · rintro (⟨-, -, he⟩ | ⟨line, rest, hs, ⟨-, he⟩ | ⟨n, hl, ⟨-, he⟩ | ⟨hmax, hlen, d, hd, he⟩⟩⟩)
    · cases he
    · cases he
    · cases he
    · obtain rfl := FrameError.invalidBody.inj he
      obtain ⟨hcounts, -⟩ := (lengthOf?_eq_some_iff line n).mp hl
      have hbody : (rest.take n).length = n := List.length_take_of_le hlen
      refine ⟨line, rest.take n, rest.drop n, ?_, ?_, ?_, hd⟩
      · rw [List.append_assoc, List.take_append_drop, List.append_assoc]
        exact eq_append_of_splitLine bytes line rest hs
      · rw [hbody]
        exact hcounts
      · omega
  · rintro ⟨line, body, rest, rfl, hcounts, hmax, hd⟩
    refine Or.inr ⟨line, body ++ rest, ?_, Or.inr ⟨body.length, ?_, Or.inr ⟨hmax, ?_, e, ?_, rfl⟩⟩⟩
    · rw [List.append_assoc]
      exact splitLine_of_counts hcounts (body ++ rest)
    · exact (lengthOf?_eq_some_iff line _).mpr ⟨hcounts, lt_word_of_allowed hmax⟩
    · simp
    · rwa [List.take_left]

theorem parse_incomplete_iff (bytes : List UInt8) :
    parse frame bytes = .ok .incomplete ↔ IsPartial bytes := by
  have hfound := found_iff_spelled bytes fun _ n rest => n ≤ maxFrameSize ∧ rest.length < n
  unfold IsPartial
  rw [← splitLine_eq_none_iff]
  constructor
  · intro h
    unfold parse at h
    split at h
    · rename_i hs
      split at h
      · cases h
      · exact Or.inl ⟨hs, by omega⟩
    -- with a line there is a length within the limit, or parsing would have failed
    · rename_i line rest hs
      right
      split at h
      · cases h
      rename_i n hl
      split at h
      · cases h
      split at h
      · obtain ⟨line, rest, n, heq, hcounts, -, hmax, hlen⟩ :=
          hfound.mp ⟨line, rest, n, hs, hl, by omega, ‹_›⟩
        exact ⟨line, n, rest, heq, hcounts, hmax, hlen⟩
      · split at h <;> cases h
  · rintro (⟨hs, hlen⟩ | ⟨line, n, rest, heq, hcounts, hmax, hlen⟩)
    · simp only [parse, hs, Nat.not_lt.mpr hlen, if_false]
    · obtain ⟨line, rest, n, hs, hl, hmax, hlen⟩ :=
        hfound.mpr ⟨line, rest, n, heq, hcounts, lt_word_of_allowed hmax, hmax, hlen⟩
      simp only [parse, hs, hl, Nat.not_lt.mpr hmax, hlen, if_false, if_true]

/-- Everything else is an invalid length. -/
theorem parse_invalidLength_iff (bytes : List UInt8) :
    (∃ shown, parse frame bytes = .error (.invalidLength shown)) ↔
      (¬ ∃ f size rest, IsFrame frame bytes f size rest) ∧ (¬ ∃ n, IsOversized bytes n) ∧
        ¬ IsPartial bytes ∧ ¬ ∃ e, IsSpoiled frame bytes e := by
  simp only [← parse_complete_iff_isFrame, ← parse_tooLarge_iff frame,
    ← parse_incomplete_iff frame, ← parse_invalidBody_iff]
  constructor
  · rintro ⟨shown, h⟩
    simp [h]
  · rintro ⟨hcomplete, hlarge, hpartial, hbody⟩
    cases hparse : parse frame bytes with
    | ok found =>
      cases found with
      | complete f size rest => exact absurd ⟨f, size, rest, hparse⟩ hcomplete
      | incomplete => exact absurd hparse hpartial
    | error e =>
      rcases (parse_error_iff frame bytes e).mp hparse with
        ⟨-, -, rfl⟩ | ⟨line, rest, -, ⟨-, rfl⟩ | ⟨n, -, ⟨-, rfl⟩ | ⟨-, -, d, -, rfl⟩⟩⟩
      · exact ⟨_, rfl⟩
      · exact ⟨_, rfl⟩
      · exact absurd ⟨n, hparse⟩ hlarge
      · exact absurd ⟨d, hparse⟩ hbody

section
variable {frame} {bytes rest : List UInt8} {f : α} {size n : Nat} {e : Json.DecodeError}

theorem IsFrame.size_le (h : IsFrame frame bytes f size rest) :
    0 < size ∧ size ≤ bytes.length := by
  obtain ⟨line, body, rfl, -, -, -, rfl⟩ := h
  simp only [List.length_append, newline, List.length_cons, List.length_nil]
  omega

theorem IsFrame.append (h : IsFrame frame bytes f size rest) (more : List UInt8) :
    IsFrame frame (bytes ++ more) f size (rest ++ more) := by
  obtain ⟨line, body, rfl, hall⟩ := h
  exact ⟨line, body, by simp, hall⟩

theorem IsOversized.append (h : IsOversized bytes n) (more : List UInt8) :
    IsOversized (bytes ++ more) n := by
  obtain ⟨line, rest, rfl, hall⟩ := h
  exact ⟨line, rest ++ more, by simp, hall⟩

theorem IsSpoiled.append (h : IsSpoiled frame bytes e) (more : List UInt8) :
    IsSpoiled frame (bytes ++ more) e := by
  obtain ⟨line, body, rest, rfl, hall⟩ := h
  exact ⟨line, body, rest ++ more, by simp, hall⟩

end

/-- The bytes from `start` to `stop`; `none` if there are no such bytes. -/
def slice? (bytes : List UInt8) (start stop : Nat) : Option (List UInt8) :=
  if start ≤ stop ∧ stop ≤ bytes.length then some ((bytes.drop start).take (stop - start))
  else none

/-- The sum of two words; `none` if it is none. -/
def wordSum? (m n : Nat) : Option Nat :=
  if m + n < 18446744073709551616 then some (m + n) else none

/-- Where the first CR LF stands. -/
def findNewline : List UInt8 → Option Nat
  | [] => none
  | b :: bytes =>
    if newline <+: b :: bytes then some 0 else (findNewline bytes).map (· + 1)

/-- A frame and how many bytes it takes, if there is one. -/
def Parsed.frame? : Parsed α → Option (α × Nat)
  | complete f size _ => some (f, size)
  | incomplete => none

/-- Reads one frame by its positions in the bytes; `none` if a slice is out of range or a sum does
not fit a word. -/
def parseSlices (bytes : List UInt8) : Option (Except FrameError (Option (α × Nat))) :=
  match findNewline bytes with
  | none =>
    if maxHeaderLength < bytes.length then do
      let shown ← slice? bytes 0 maxHeaderLength
      pure (.error (.invalidLength (Text.lossy shown)))
    else pure (.ok none)
  | some lineEnd => do
    let line ← slice? bytes 0 lineEnd
    match lengthOf? line with
    | none => pure (.error (.invalidLength (Text.lossy line)))
    | some length =>
      if maxFrameSize < length then pure (.error (.tooLarge length))
      else do
        let header ← wordSum? lineEnd 2
        let total ← wordSum? header length
        if bytes.length < total then pure (.ok none)
        else do
          let body ← slice? bytes header total
          match frame.ofText body with
          | .ok f => pure (.ok (some (f, total)))
          | .error e => pure (.error (.invalidBody e))

theorem findNewline_eq (bytes : List UInt8) :
    findNewline bytes = (splitLine bytes).map fun split => split.1.length := by
  induction bytes with
  | nil => rfl
  | cons b bytes ih =>
    rw [findNewline]
    split
    · rename_i hfront
      obtain ⟨tail, htail⟩ := hfront
      obtain ⟨rfl, rfl⟩ := List.cons.inj htail
      rfl
    · rename_i hfront
      rw [splitLine_cons_of_ne b bytes, ih, Option.map_map, Option.map_map]
      · rfl
      · intro rest hcr hlf
        apply hfront
        rw [beq_iff_eq.mp hcr, hlf]
        exact ⟨rest, rfl⟩

theorem slice?_of_append (front middle back : List UInt8) :
    slice? (front ++ middle ++ back) front.length (front.length + middle.length) =
      some middle := by
  have hstop : front.length + middle.length ≤ (front ++ middle ++ back).length := by simp
  rw [slice?, if_pos ⟨Nat.le_add_right _ _, hstop⟩, List.append_assoc, List.drop_left,
    Nat.add_sub_cancel_left, List.take_left]

theorem wordSum?_of_lt {m n : Nat} (h : m + n < 18446744073709551616) :
    wordSum? m n = some (m + n) := if_pos h

/-- No check fails, in bytes as long as memory can hold. -/
theorem parseSlices_eq_some (bytes : List UInt8) (hlen : bytes.length < 9223372036854775808) :
    parseSlices frame bytes = some ((parse frame bytes).map Parsed.frame?) := by
  unfold parseSlices parse
  rw [findNewline_eq]
  cases hs : splitLine bytes with
  | none =>
    by_cases hlong : maxHeaderLength < bytes.length
    · have hslice : slice? bytes 0 maxHeaderLength = some (bytes.take maxHeaderLength) := by
        simp [slice?, Nat.le_of_lt hlong]
      simp only [Option.map_none, if_pos hlong, hslice]
      rfl
    · simp only [Option.map_none, if_neg hlong]
      rfl
  | some split =>
    obtain ⟨line, rest⟩ := split
    have hbytes : bytes = line ++ newline ++ rest := by
      rw [eq_append_of_splitLine bytes line rest hs, List.append_assoc]
      rfl
    have hsize : bytes.length = line.length + 2 + rest.length := by
      rw [hbytes]
      simp only [List.length_append, newline, List.length_cons, List.length_nil]
    have hline : slice? bytes 0 line.length = some line := by
      have h := slice?_of_append [] line (newline ++ rest)
      simpa [hbytes] using h
    simp only [Option.map_some, hline, Option.bind_eq_bind, Option.bind_some]
    cases hl : lengthOf? line with
    | none => rfl
    | some n =>
      by_cases hmax : maxFrameSize < n
      · simp only [if_pos hmax]
        rfl
      -- both sums stay far below a word: the line is one of the bytes, and the length is small
      · have hn : n ≤ 16777216 := Nat.not_lt.mp hmax
        simp only [if_neg hmax, wordSum?_of_lt (show line.length + 2 < _ by omega),
          wordSum?_of_lt (show line.length + 2 + n < _ by omega), Option.bind_some]
        by_cases hshort : rest.length < n
        · rw [if_pos (by omega), if_pos hshort]
          rfl
        · rw [if_neg (by omega), if_neg hshort]
          have hbody : slice? bytes (line.length + 2) (line.length + 2 + n) =
              some (rest.take n) := by
            have hcut : (rest.take n).length = n := List.length_take_of_le (Nat.not_lt.mp hshort)
            have h := slice?_of_append (line ++ newline) (rest.take n) (rest.drop n)
            rw [List.append_assoc _ (rest.take n), List.take_append_drop, hcut] at h
            rw [hbytes]
            simpa [newline] using h
          simp only [hbody, Option.bind_some]
          cases frame.ofText (rest.take n) <;> rfl

end

/-- Parsing accepts exactly the frame grammar. Read by positions, no slice is out of range and no
sum overflows, as long as the bytes fit into memory. -/
theorem parse_accepts_grammar {α : Type} (frame : Decoder α) (bytes : List UInt8) :
    (∀ f size rest, parse frame bytes = .ok (.complete f size rest) ↔
      IsFrame frame bytes f size rest) ∧
    (∀ n, parse frame bytes = .error (.tooLarge n) ↔ IsOversized bytes n) ∧
    (parse frame bytes = .ok .incomplete ↔ IsPartial bytes) ∧
    (∀ e, parse frame bytes = .error (.invalidBody e) ↔ IsSpoiled frame bytes e) ∧
    ((∃ shown, parse frame bytes = .error (.invalidLength shown)) ↔
      (¬ ∃ f size rest, IsFrame frame bytes f size rest) ∧ (¬ ∃ n, IsOversized bytes n) ∧
        ¬ IsPartial bytes ∧ ¬ ∃ e, IsSpoiled frame bytes e) ∧
    (∀ f size rest, parse frame bytes = .ok (.complete f size rest) →
      0 < size ∧ size ≤ bytes.length ∧ rest = bytes.drop size) ∧
    (∀ more,
      (∀ f size rest, parse frame bytes = .ok (.complete f size rest) →
        parse frame (bytes ++ more) = .ok (.complete f size (rest ++ more))) ∧
      (∀ n, parse frame bytes = .error (.tooLarge n) →
        parse frame (bytes ++ more) = .error (.tooLarge n)) ∧
      ∀ e, parse frame bytes = .error (.invalidBody e) →
        parse frame (bytes ++ more) = .error (.invalidBody e)) ∧
    (bytes.length < 9223372036854775808 →
      parseSlices frame bytes = some ((parse frame bytes).map Parsed.frame?)) := by
  refine ⟨fun f size rest => parse_complete_iff_isFrame frame bytes rest f size,
    parse_tooLarge_iff frame bytes, parse_incomplete_iff frame bytes,
    parse_invalidBody_iff frame bytes, parse_invalidLength_iff frame bytes, ?_, ?_,
    parseSlices_eq_some frame bytes⟩
  · intro f size rest h
    obtain ⟨hpos, hle⟩ := ((parse_complete_iff_isFrame frame bytes rest f size).mp h).size_le
    exact ⟨hpos, hle, (parse_complete_bytes frame bytes rest f size h).1.symm⟩
  · intro more
    refine ⟨?_, ?_, ?_⟩
    · intro f size rest
      rw [parse_complete_iff_isFrame, parse_complete_iff_isFrame]
      exact fun h => h.append more
    · intro n
      rw [parse_tooLarge_iff, parse_tooLarge_iff]
      exact fun h => h.append more
    · intro e
      rw [parse_invalidBody_iff, parse_invalidBody_iff]
      exact fun h => h.append more

/-- A `cancel` frame whose length is padded with zeros, and half of a line end behind it. -/
def paddedFrame : List UInt8 := [0x30, 0x30, 0x30] ++ encode ClientFrame.cancel.toJson ++ [0x0D]

/-- A length of one byte more than a frame may have. -/
def oversizedLength : List UInt8 := Json.utf8 "16777217".toList ++ newline

/-- A body of one byte that is no value. -/
def spoiledBody : List UInt8 := [0x31] ++ newline ++ [0x78]

/-- A frame, a length that is too large and a body that is no value, each with a byte more behind
it. -/
theorem parse_accepts_grammar_padded :
    (parse ClientFrame.decoder paddedFrame = .ok (.complete .cancel 24 [0x0D]) ∧
      IsFrame ClientFrame.decoder paddedFrame .cancel 24 [0x0D] ∧ 24 ≤ paddedFrame.length ∧
      parse ClientFrame.decoder (paddedFrame ++ [0x0A]) =
        .ok (.complete .cancel 24 ([0x0D] ++ [0x0A])) ∧
      paddedFrame.length < 9223372036854775808 ∧
      parseSlices ClientFrame.decoder paddedFrame = some (.ok (some (.cancel, 24)))) ∧
    (parse ClientFrame.decoder oversizedLength = .error (.tooLarge 16777217) ∧
      parse ClientFrame.decoder (oversizedLength ++ [0x0A]) = .error (.tooLarge 16777217)) ∧
    ∃ e, parse ClientFrame.decoder spoiledBody = .error (.invalidBody e) ∧
      parse ClientFrame.decoder (spoiledBody ++ [0x0A]) = .error (.invalidBody e) := by
  have hframe : parse ClientFrame.decoder paddedFrame = .ok (.complete .cancel 24 [0x0D]) := by cbv
  have hlarge : parse ClientFrame.decoder oversizedLength = .error (.tooLarge 16777217) := by cbv
  have hbody : parse ClientFrame.decoder spoiledBody =
      .error (.invalidBody (.notJson .expectedValue)) := by cbv
  have hfits : paddedFrame.length < 9223372036854775808 := by cbv
  obtain ⟨hcomplete, -, -, -, -, hsize, hmore, hslices⟩ :=
    parse_accepts_grammar ClientFrame.decoder paddedFrame
  obtain ⟨-, -, -, -, -, -, hlargeMore, -⟩ :=
    parse_accepts_grammar ClientFrame.decoder oversizedLength
  obtain ⟨-, -, -, -, -, -, hbodyMore, -⟩ := parse_accepts_grammar ClientFrame.decoder spoiledBody
  refine ⟨⟨hframe, (hcomplete _ _ _).mp hframe, (hsize _ _ _ hframe).2.1,
    (hmore _).1 _ _ _ hframe, hfits, ?_⟩, ⟨hlarge, (hlargeMore _).2.1 _ hlarge⟩,
    _, hbody, (hbodyMore _).2.2 _ hbody⟩
  rw [hslices hfits, hframe]
  rfl

end EchoServer.Wire
