import EchoServer.Proofs.Word
import EchoServer.Text.Count

namespace EchoServer.Text

/-- The text is decimal digits, behind a plus sign or not, and they count `n`, however large. -/
def Spells (text : String) (n : Nat) : Prop :=
  ∃ digits, (text.toList = digits ∨ text.toList = '+' :: digits) ∧ digits ≠ [] ∧
    (∀ c ∈ digits, '0' ≤ c ∧ c ≤ '9') ∧ Nat.ofDigitChars 10 digits 0 = n

theorem isDigit_iff (c : Char) : c.isDigit = true ↔ '0' ≤ c ∧ c ≤ '9' := by
  simp only [Char.isDigit, Bool.and_eq_true, decide_eq_true_eq, Char.le_def]

theorem spells_iff (text : String) (n : Nat) :
    Spells text n ↔ ∃ digits, (text.toList = digits ∨ text.toList = '+' :: digits) ∧
      digits ≠ [] ∧ digits.all Char.isDigit = true ∧ Nat.ofDigitChars 10 digits 0 = n := by
  simp only [Spells, List.all_eq_true, isDigit_iff]

theorem not_isDigit_plus : Char.isDigit '+' = false := by decide

/-- Digits do not begin with a plus sign. -/
theorem spells_of_plus {text : String} {rest : List Char} (h : text.toList = '+' :: rest)
    (n : Nat) : Spells text n ↔
      rest ≠ [] ∧ rest.all Char.isDigit = true ∧ Nat.ofDigitChars 10 rest 0 = n := by
  rw [spells_iff, h]
  constructor
  · intro hspells
    obtain ⟨digits, hdigits | hdigits, hne, hall, hn⟩ := hspells
    · rw [← hdigits, List.all_cons, not_isDigit_plus, Bool.false_and] at hall
      cases hall
    · rw [List.cons.injEq] at hdigits
      rw [hdigits.2]
      exact ⟨hne, hall, hn⟩
  · intro hrest
    exact ⟨rest, Or.inr rfl, hrest⟩

theorem spells_of_no_plus {text : String} (h : ∀ rest, text.toList ≠ '+' :: rest) (n : Nat) :
    Spells text n ↔ text.toList ≠ [] ∧ text.toList.all Char.isDigit = true ∧
      Nat.ofDigitChars 10 text.toList 0 = n := by
  rw [spells_iff]
  constructor
  · intro hspells
    obtain ⟨digits, hdigits | hdigits, hrest⟩ := hspells
    · rw [hdigits]
      exact hrest
    · exact absurd hdigits (h digits)
  · intro hall
    exact ⟨text.toList, Or.inl rfl, hall⟩

theorem countOf?_eq_some_iff (text : String) (n : Nat) :
    countOf? text = some n ↔ Spells text n := by
  -- the digits are read in one way, with the sign taken off or without one
  have hread (digits : List Char) :
      (if !digits.isEmpty && digits.all Char.isDigit then some (Nat.ofDigitChars 10 digits 0)
        else none) = some n ↔
      digits ≠ [] ∧ digits.all Char.isDigit = true ∧ Nat.ofDigitChars 10 digits 0 = n := by
    simp [and_assoc]
  unfold countOf?
  split
  · rename_i rest hplus
    rw [spells_of_plus hplus]
    exact hread rest
  · rename_i hplus
    rw [spells_of_no_plus fun rest h => hplus rest h]
    exact hread text.toList

/-- A digit behind the number in a word; `none` if it is no digit, or if the number gets too large
for its word. -/
def pushDigit? (w : UInt64) (c : Char) : Option UInt64 :=
  if c.isDigit then
    (Word.ofNat? (10 * w.toNat)).bind fun tens => Word.ofNat? (tens.toNat + (c.toNat - '0'.toNat))
  else none

/-- The word that a text spells, read digit by digit. -/
def wordOf? (text : String) : Option UInt64 :=
  match text.toList with
  | [] => none
  | '+' :: c :: cs => (c :: cs).foldlM pushDigit? 0
  | c :: cs => (c :: cs).foldlM pushDigit? 0

theorem pushDigit?_eq_some_iff (w v : UInt64) (c : Char) :
    pushDigit? w c = some v ↔
      c.isDigit = true ∧ 10 * w.toNat + (c.toNat - '0'.toNat) = v.toNat := by
  rw [pushDigit?]
  by_cases hc : c.isDigit = true
  · rw [if_pos hc, Option.bind_eq_some_iff]
    constructor
    · intro h
      obtain ⟨tens, htens, hv⟩ := h
      rw [Word.ofNat?_eq_some_iff] at htens hv
      rw [htens]
      exact ⟨hc, hv⟩
    · intro h
      have hlt : v.toNat < UInt64.size := v.toNat_lt
      have htens : 10 * w.toNat < UInt64.size := by omega
      refine ⟨UInt64.ofNat (10 * w.toNat), ?_, ?_⟩
      · rw [Word.ofNat?_eq_some_iff, UInt64.toNat_ofNat_of_lt' htens]
      · rw [Word.ofNat?_eq_some_iff, UInt64.toNat_ofNat_of_lt' htens]
        exact h.2
  · simp [hc]

/-- A number only grows with the digits behind it. -/
theorem le_ofDigitChars (n : Nat) (digits : List Char) : n ≤ Nat.ofDigitChars 10 digits n := by
  have hpos : 0 < 10 ^ digits.length := Nat.pow_pos (by decide)
  rw [Nat.ofDigitChars_eq_ofDigitChars_zero]
  exact Nat.le_trans (Nat.le_mul_of_pos_left n hpos) (Nat.le_add_right _ _)

/-- Digits are read into a word exactly when their value fits one, and then with that value. -/
theorem foldlM_pushDigit?_eq_some_iff (digits : List Char) (w v : UInt64) :
    digits.foldlM pushDigit? w = some v ↔
      digits.all Char.isDigit = true ∧ Nat.ofDigitChars 10 digits w.toNat = v.toNat := by
  induction digits generalizing w with
  | nil => simp [UInt64.toNat_inj]
  | cons c cs ih =>
    rw [List.foldlM_cons, Nat.ofDigitChars_cons, List.all_cons, Bool.and_eq_true,
      Option.bind_eq_bind, Option.bind_eq_some_iff]
    constructor
    · intro h
      obtain ⟨next, hnext, h⟩ := h
      obtain ⟨hc, hvalue⟩ := (pushDigit?_eq_some_iff w next c).mp hnext
      obtain ⟨hall, hv⟩ := (ih next).mp h
      rw [hvalue]
      exact ⟨⟨hc, hall⟩, hv⟩
    · intro h
      obtain ⟨⟨hc, hall⟩, hv⟩ := h
      -- what has been read so far is not above the whole number, so it fits
      have hle := le_ofDigitChars (10 * w.toNat + (c.toNat - '0'.toNat)) cs
      have hlt : v.toNat < UInt64.size := v.toNat_lt
      have hfits : 10 * w.toNat + (c.toNat - '0'.toNat) < UInt64.size := by omega
      refine ⟨UInt64.ofNat (10 * w.toNat + (c.toNat - '0'.toNat)), ?_, ?_⟩
      · apply (pushDigit?_eq_some_iff w _ c).mpr
        exact ⟨hc, (UInt64.toNat_ofNat_of_lt' hfits).symm⟩
      · apply (ih _).mpr
        rw [UInt64.toNat_ofNat_of_lt' hfits]
        exact ⟨hall, hv⟩

theorem wordOf?_eq_some_iff (text : String) (w : UInt64) :
    wordOf? text = some w ↔ Spells text w.toNat := by
  unfold wordOf?
  split
  · rename_i hnil
    have hno (rest : List Char) : text.toList ≠ '+' :: rest := by simp [hnil]
    rw [spells_of_no_plus hno, hnil]
    simp
  · rename_i c cs hplus
    rw [foldlM_pushDigit?_eq_some_iff, spells_of_plus hplus]
    simp
  · rename_i c cs hother htext
    rw [foldlM_pushDigit?_eq_some_iff]
    by_cases hplus : c = '+'
    · -- a plus sign with nothing behind it
      have hcs : cs = [] := by
        cases cs with
        | nil => rfl
        | cons d ds => exact absurd rfl (hother d ds hplus)
      rw [hplus, hcs] at htext ⊢
      rw [spells_of_plus htext]
      simp [not_isDigit_plus]
    · have hno (rest : List Char) : text.toList ≠ '+' :: rest := by simp [htext, hplus]
      rw [spells_of_no_plus hno, htext]
      simp

/-- Reading in words is reading without a limit, where what does not fit a word is nothing. -/
theorem wordOf?_eq_bind (text : String) : wordOf? text = (countOf? text).bind Word.ofNat? := by
  apply Option.ext
  intro w
  rw [wordOf?_eq_some_iff, Option.bind_eq_some_iff]
  constructor
  · intro h
    exact ⟨w.toNat, (countOf?_eq_some_iff text _).mpr h, (Word.ofNat?_eq_some_iff _ w).mpr rfl⟩
  · intro h
    obtain ⟨n, hn, hw⟩ := h
    rw [← (Word.ofNat?_eq_some_iff n w).mp hw]
    exact (countOf?_eq_some_iff text n).mp hn

end EchoServer.Text
