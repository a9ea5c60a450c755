import EchoServer.Json.Reader
import EchoServer.Proofs.Text.Utf8

namespace EchoServer.Json

/-- Bytes that can follow a number: they do not go on with it. -/
def Follows (rest : List UInt8) : Prop :=
  ∀ b ∈ rest.head?, isDigit b = false ∧ b ≠ 0x2E ∧ b ≠ 0x65 ∧ b ≠ 0x45

theorem follows_nil : Follows [] := fun _ h => by cases h

theorem follows_cons (b : UInt8) (rest : List UInt8)
    (h : isDigit b = false ∧ b ≠ 0x2E ∧ b ≠ 0x65 ∧ b ≠ 0x45) : Follows (b :: rest) := by
  intro c hc
  obtain rfl : b = c := by simpa using hc
  exact h

/-- The byte of a decimal digit. -/
theorem digit_facts (c : Char) (h : c.isDigit = true) :
    String.utf8EncodeChar c = [UInt8.ofNat c.toNat] ∧ isDigit (UInt8.ofNat c.toNat) = true ∧
      Char.ofNat (UInt8.ofNat c.toNat).toNat = c := by
  obtain ⟨hlow, hhigh⟩ : 48 ≤ c.toNat ∧ c.toNat ≤ 57 := by
    simpa [Char.isDigit, UInt32.le_iff_toNat_le] using h
  have hn : (UInt8.ofNat c.toNat).toNat = c.toNat :=
    UInt8.toNat_ofNat_of_lt' (Nat.lt_of_le_of_lt hhigh (by decide))
  refine ⟨utf8EncodeChar_of_ascii c (by omega), ?_, by rw [hn, Char.ofNat_toNat]⟩
  simp only [isDigit, Bool.and_eq_true, decide_eq_true_eq, UInt8.le_iff_toNat_le, hn]
  exact ⟨hlow, hhigh⟩

theorem spanDigits_utf8 (ds : List Char) (rest : List UInt8)
    (hd : ∀ c ∈ ds, c.isDigit = true) (hr : ∀ b ∈ rest.head?, isDigit b = false) :
    spanDigits (utf8 ds ++ rest) = (ds, rest) := by
  induction ds with
  | nil =>
    cases rest with
    | nil => rfl
    | cons b rest =>
      have hb : isDigit b = false := hr b (by simp)
      simp [spanDigits, utf8_nil, hb]
  | cons c ds ih =>
    obtain ⟨hbytes, hdigit, hback⟩ := digit_facts c (hd c (by simp))
    have ht := ih fun e he => hd e (by simp [he])
    simp only [spanDigits, Prod.mk.injEq] at ht
    simp only [spanDigits, utf8_cons, hbytes, List.cons_append, List.nil_append,
      List.takeWhile_cons, List.dropWhile_cons, hdigit, if_true, List.map_cons, hback, ht.1, ht.2]

theorem head_toDigits_ne_zero (n : Nat) (h : 0 < n) :
    ∀ c ∈ (Nat.toDigits 10 n).head?, c ≠ '0' := by
  have hsmall : ∀ k < 10, 0 < k → k.digitChar ≠ '0' := by decide
  induction n using Nat.strongRecOn with
  | ind n ih =>
    by_cases hlt : n < 10
    · rw [Nat.toDigits_of_lt_base hlt]
      intro c hc
      obtain rfl : n.digitChar = c := by simpa using hc
      exact hsmall n hlt h
    · have htens := ih (n / 10) (by omega) (by omega)
      rw [Nat.toDigits_of_base_le (by decide) (by omega), List.head?_append]
      cases hh : (Nat.toDigits 10 (n / 10)).head? with
      | none => exact absurd (List.head?_eq_none_iff.mp hh) Nat.toDigits_ne_nil
      | some d =>
        rw [hh] at htens
        exact htens

/-- The reading of a number that begins at `bs`, after a sign or without one. -/
theorem readValue_signed (fuel : Nat) (negative : Bool) (c : Char) (cs : List Char)
    (rest : List UInt8) (hc : c.isDigit = true) :
    readValue (fuel + 1) (utf8 ((if negative then ['-'] else []) ++ c :: cs) ++ rest) =
      readNumber negative (utf8 (c :: cs) ++ rest) := by
  obtain ⟨hbytes, hdigit, -⟩ := digit_facts c hc
  cases negative with
  | true =>
    have hminus : utf8 ['-'] = [0x2D] := rfl
    rw [if_pos rfl, utf8_append, hminus]
    simp [readValue, dropSpace, isSpace, readScalar]
  | false =>
    obtain ⟨hlow, hhigh⟩ : (0x30 : UInt8) ≤ UInt8.ofNat c.toNat ∧ UInt8.ofNat c.toNat ≤ 0x39 := by
      simpa [isDigit] using hdigit
    simp only [if_neg, Bool.false_eq_true, not_false_eq_true, List.nil_append, utf8_cons, hbytes]
    -- of the byte it matters only that it is a digit, which no other value begins with
    generalize UInt8.ofNat c.toNat = b at hdigit hlow hhigh
    have hne (d : UInt8) (hd : d < 0x30 ∨ 0x39 < d) : b ≠ d := by
      rintro rfl
      simp only [UInt8.lt_iff_toNat_lt, UInt8.le_iff_toNat_le] at hlow hhigh hd
      omega
    have hspace : isSpace b = false := by
      simp [isSpace, hne 0x20 (by decide), hne 0x09 (by decide), hne 0x0A (by decide),
        hne 0x0D (by decide)]
    simp [readValue, dropSpace, hspace, readScalar, hdigit, hne 0x7B (by decide),
      hne 0x5B (by decide), hne 0x22 (by decide), hne 0x6E (by decide), hne 0x74 (by decide),
      hne 0x66 (by decide), hne 0x2D (by decide)]

/-- The text of an exponent. -/
def exponentText : Option (Bool × List Char) → List Char
  | none => []
  | some (negative, ds) => 'e' :: (if negative then '-' else '+') :: ds

/-- The text of the digits after the point. -/
def fractionText (ds : List Char) : List Char := if ds.isEmpty then [] else '.' :: ds

/-- The text of a numeral without its sign. -/
def Numeral.text (n : Numeral) : List Char :=
  n.whole ++ (fractionText n.fraction ++ exponentText n.exponent)

/-- A numeral that JSON allows: it has digits before the point, where a leading zero stands alone,
and in its exponent. -/
structure Numeral.Proper (n : Numeral) : Prop where
  whole : n.whole ≠ []
  lead : n.whole.head? = some '0' → n.whole.length = 1
  digits : ∀ c ∈ n.whole ++ n.fraction, c.isDigit = true
  exponent : ∀ e ∈ n.exponent, e.2 ≠ [] ∧ ∀ c ∈ e.2, c.isDigit = true

theorem readExponent_text (n : Numeral) (e : Option (Bool × List Char)) (rest : List UInt8)
    (he : ∀ p ∈ e, p.2 ≠ [] ∧ ∀ c ∈ p.2, c.isDigit = true) (hn : n.exponent = none)
    (hr : Follows rest) :
    readExponent n (utf8 (exponentText e) ++ rest) =
      numberReading { n with exponent := e } rest := by
  cases e with
  | none =>
    have hsame : { n with exponent := none } = n := by rw [← hn]
    rw [hsame]
    cases rest with
    | nil => rfl
    | cons b rest =>
      obtain ⟨-, -, he, hE⟩ := hr b (by simp)
      simp [exponentText, utf8_nil, readExponent, he, hE]
  | some p =>
    obtain ⟨negative, ds⟩ := p
    obtain ⟨hne, hdigits⟩ := he _ rfl
    have hspan := spanDigits_utf8 ds rest hdigits fun b hb => (hr b hb).1
    have hsign : utf8 (exponentText (some (negative, ds))) ++ rest =
        0x65 :: (if negative then 0x2D else 0x2B) :: (utf8 ds ++ rest) := by
      cases negative <;> rfl
    rw [hsign]
    cases negative <;> simp [readExponent, hspan, hne]

theorem readFraction_text (n : Numeral) (ds : List Char) (e : Option (Bool × List Char))
    (rest : List UInt8) (hd : ∀ c ∈ ds, c.isDigit = true)
    (he : ∀ p ∈ e, p.2 ≠ [] ∧ ∀ c ∈ p.2, c.isDigit = true) (hf : n.fraction = [])
    (hn : n.exponent = none) (hr : Follows rest) :
    readFraction n (utf8 (fractionText ds ++ exponentText e) ++ rest) =
      numberReading { n with fraction := ds, exponent := e } rest := by
  have hfollow : ∀ b ∈ (utf8 (exponentText e) ++ rest).head?, isDigit b = false ∧ b ≠ 0x2E := by
    intro b hb
    cases e with
    | none => exact ⟨(hr b hb).1, (hr b hb).2.1⟩
    | some p =>
      obtain rfl : (0x65 : UInt8) = b := Option.some.inj hb
      exact ⟨rfl, by decide⟩
  cases ds with
  | nil =>
    have hexponent := readExponent_text n e rest he hn hr
    have hsame : { n with fraction := [], exponent := e } = { n with exponent := e } := by rw [← hf]
    rw [hsame, ← hexponent, show fractionText [] = [] from rfl, List.nil_append]
    cases hb : utf8 (exponentText e) ++ rest with
    | nil => rfl
    | cons b bs =>
      have hne : b ≠ 0x2E := (hfollow b (by simp [hb])).2
      simp [readFraction, hne]
  | cons d ds =>
    have hpoint : utf8 (fractionText (d :: ds) ++ exponentText e) ++ rest =
        0x2E :: (utf8 (d :: ds) ++ (utf8 (exponentText e) ++ rest)) := by
      rw [utf8_append, List.append_assoc]
      rfl
    have hspan := spanDigits_utf8 (d :: ds) _ hd fun b hb => (hfollow b hb).1
    rw [hpoint]
    simp only [readFraction, if_true, hspan, List.isEmpty_cons, Bool.false_eq_true, if_false]
    exact readExponent_text { n with fraction := d :: ds } e rest he hn hr

theorem readNumber_text (n : Numeral) (rest : List UInt8) (hn : n.Proper) (hr : Follows rest) :
    readNumber n.negative (utf8 n.text ++ rest) = numberReading n rest := by
  have hfollow : ∀ b ∈ (utf8 (fractionText n.fraction ++ exponentText n.exponent) ++ rest).head?,
      isDigit b = false := by
    intro b hb
    cases hf : n.fraction with
    | cons d ds =>
      rw [hf] at hb
      obtain rfl : (0x2E : UInt8) = b := Option.some.inj hb
      rfl
    | nil =>
      cases he : n.exponent with
      | none =>
        rw [hf, he] at hb
        exact (hr b hb).1
      | some p =>
        rw [hf, he] at hb
        obtain rfl : (0x65 : UInt8) = b := Option.some.inj hb
        rfl
  rw [Numeral.text, utf8_append, List.append_assoc, readNumber,
    spanDigits_utf8 n.whole _ (fun c hc => hn.digits c (by simp [hc])) hfollow]
  cases hw : n.whole with
  | nil => exact absurd hw hn.whole
  | cons d more =>
    have hlead : (decide (d = '0') && !more.isEmpty) = false := by
      by_cases hd : d = '0'
      · have := hn.lead (by simp [hw, hd])
        simpa [hw, hd] using this
      · simp [hd]
    have hfraction := readFraction_text ⟨n.negative, n.whole, [], none⟩ n.fraction n.exponent rest
      (fun c hc => hn.digits c (by simp [hc])) hn.exponent rfl rfl hr
    rw [hw] at hfraction
    simp only [hlead, Bool.false_eq_true, if_false, hfraction]
    rw [← hw]

theorem value_of_integer (n : WideInt) :
    ({ negative := decide (n.val < 0), whole := Nat.toDigits 10 n.val.natAbs, fraction := [],
       exponent := none } : Numeral).value = some (.integer n) := by
  obtain ⟨v, hlow, hhigh⟩ := n
  rw [Numeral.value, Numeral.integer?]
  simp only [List.isEmpty_nil, Option.isNone_none, Bool.and_self, if_true,
    Nat.ofDigitChars_ten_toDigits, decide_eq_true_eq]
  by_cases hneg : v < 0
  · have hv : 0 < v.natAbs ∧ v.natAbs ≤ 9223372036854775808 := by omega
    simp only [hneg, if_true, dif_pos hv]
    congr 3
    omega
  · have hv : v.natAbs < 18446744073709551616 := by omega
    simp only [hneg, if_false, dif_pos hv]
    congr 3
    omega

theorem intText_eq (n : Int) :
    intText n = (if decide (n < 0) then ['-'] else []) ++ Nat.toDigits 10 n.natAbs := by
  by_cases h : n < 0 <;> simp [intText, h]

theorem readValue_text (fuel : Nat) (n : Numeral) (rest : List UInt8) (hn : n.Proper)
    (hr : Follows rest) :
    readValue (fuel + 1) (utf8 ((if n.negative then ['-'] else []) ++ n.text) ++ rest) =
      numberReading n rest := by
  cases hw : n.whole with
  | nil => exact absurd hw hn.whole
  | cons d more =>
    have hd : d.isDigit = true := hn.digits d (by simp [hw])
    have htext : n.text = d :: (more ++ (fractionText n.fraction ++ exponentText n.exponent)) := by
      rw [Numeral.text, hw, List.cons_append]
    rw [htext, readValue_signed fuel n.negative d _ rest hd, ← htext, readNumber_text n rest hn hr]

/-- A printed integer is read as that integer. -/
theorem readValue_integer (fuel : Nat) (n : WideInt) (rest : List UInt8) (h : Follows rest) :
    readValue (fuel + 1) (utf8 (numberText (.integer n)) ++ rest) =
      (.number (.integer n), some rest) := by
  let numeral : Numeral := ⟨decide (n.val < 0), Nat.toDigits 10 n.val.natAbs, [], none⟩
  have hproper : numeral.Proper := by
    refine ⟨Nat.toDigits_ne_nil, fun hzero => ?_, fun c hc => ?_, fun e he => by cases he⟩
    · rcases Nat.eq_zero_or_pos n.val.natAbs with h0 | hpos
      · simp [numeral, h0]
      · exact absurd rfl (head_toDigits_ne_zero _ hpos '0' hzero)
    · have hdigit : c ∈ Nat.toDigits 10 n.val.natAbs := by simpa [numeral] using hc
      exact Nat.isDigit_of_mem_toDigits (by decide) (by decide) hdigit
  have htext : numberText (.integer n) =
      (if numeral.negative then ['-'] else []) ++ numeral.text := by
    rw [numberText, intText_eq]
    simp [numeral, Numeral.text, fractionText, exponentText]
  rw [htext, readValue_text fuel numeral rest hproper h, numberReading, value_of_integer]

end EchoServer.Json
