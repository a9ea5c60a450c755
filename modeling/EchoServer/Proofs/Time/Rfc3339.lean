import EchoServer.Proofs.Time.Calendar
import EchoServer.Time.Rfc3339
import Mathlib.Algebra.Group.Nat.Defs

namespace EchoServer.Time.Rfc3339

open Text

/-- Digits that a reader takes for one number, and where it stops. -/
structure Spells (ds : List Char) (n : Nat) : Prop where
  digits : ∀ c ∈ ds, c.isDigit = true
  nonempty : ds ≠ []
  value : Nat.ofDigitChars 10 ds 0 = n
  small : n < fieldLimit

theorem isDigit_iff (c : Char) : c.isDigit = true ↔ 48 ≤ c.toNat ∧ c.toNat ≤ 57 := by
  simp [Char.isDigit, UInt32.le_iff_toNat_le]

theorem isBlank_of_isDigit {c : Char} (h : c.isDigit = true) : isBlank c = false := by
  have hdigit := (isDigit_iff c).mp h
  simp only [isBlank, blankRanges, List.any_cons, List.any_nil]
  simp
  omega

theorem dropBlanks_cons {c : Char} (cs : List Char) (h : isBlank c = false) :
    dropBlanks (c :: cs) = c :: cs := by
  simp [dropBlanks, h]

theorem takeWhile_digits {ds : List Char} (hds : ∀ c ∈ ds, c.isDigit = true) (rest : List Char)
    (hrest : ∀ c ∈ rest.head?, c.isDigit = false) : (ds ++ rest).takeWhile Char.isDigit = ds := by
  rw [List.takeWhile_append_of_pos hds]
  cases rest with
  | nil => simp
  | cons c cs => simp [hrest c rfl]

/-- A number without a width is taken up to its last digit. -/
theorem scanNumber_none {ds rest : List Char} {n : Nat} (h : Spells ds n)
    (hrest : ∀ c ∈ rest.head?, c.isDigit = false) :
    scanNumber none (ds ++ rest) = .ok (n, rest) := by
  have htaken := takeWhile_digits h.digits rest hrest
  simp only [scanNumber, htaken]
  simp [h.nonempty, h.value, h.small]

/-- A number with a width is taken up to its last digit within that width. -/
theorem scanNumber_some {ds rest more : List Char} {n w : Nat} (h : Spells ds n)
    (htake : (ds ++ rest).take w = ds ++ more) (hmore : ∀ c ∈ more.head?, c.isDigit = false) :
    scanNumber (some w) (ds ++ rest) = .ok (n, rest) := by
  have htaken := takeWhile_digits h.digits more hmore
  simp only [scanNumber, htake, htaken]
  simp [h.nonempty, h.value, h.small]

theorem ofDigitChars_zeros (k n : Nat) :
    Nat.ofDigitChars 10 (List.replicate k '0' ++ Nat.toDigits 10 n) 0 = n := by
  induction k with
  | zero => exact Nat.ofDigitChars_ten_toDigits
  | succ k ih =>
    rw [List.replicate_succ, List.cons_append, Nat.ofDigitChars_cons]
    exact ih

theorem isDigit_of_mem_padded {width n : Nat} {c : Char} (h : c ∈ padded width n) :
    c.isDigit = true := by
  rcases List.mem_append.mp h with hzero | hdigit
  · rw [List.eq_of_mem_replicate hzero]
    rfl
  · exact Nat.isDigit_of_mem_toDigits (by decide) (by decide) hdigit

theorem exists_cons_padded (width n : Nat) :
    ∃ c cs, padded width n = c :: cs ∧ c.isDigit = true := by
  cases hp : padded width n with
  | nil => simp [padded, Nat.toDigits_ne_nil] at hp
  | cons c cs => exact ⟨c, cs, rfl, isDigit_of_mem_padded (hp ▸ List.mem_cons_self ..)⟩

theorem spells_padded (width n : Nat) (h : n < fieldLimit) : Spells (padded width n) n := by
  refine ⟨fun c hc => isDigit_of_mem_padded hc, ?_, ofDigitChars_zeros _ n, h⟩
  simp [padded, Nat.toDigits_ne_nil]

theorem length_padded {width n : Nat} (hwidth : 0 < width) (h : n < 10 ^ width) :
    (padded width n).length = width := by
  have hle := (Nat.length_toDigits_le_iff (b := 10) (by decide) hwidth).mpr h
  rw [padded, List.length_append, List.length_replicate]
  omega

theorem scanNumber_padded {width n : Nat} (rest : List Char) (hwidth : 0 < width)
    (h : n < 10 ^ width) (hlimit : n < fieldLimit) :
    scanNumber (some width) (padded width n ++ rest) = .ok (n, rest) := by
  have htake : (padded width n ++ rest).take width = padded width n ++ [] := by
    rw [List.take_append_of_le_length (Nat.le_of_eq (length_padded hwidth h).symm),
      List.take_of_length_le (Nat.le_of_eq (length_padded hwidth h)), List.append_nil]
  exact scanNumber_some (spells_padded width n hlimit) htake (by simp)

theorem dropBlanks_padded (width n : Nat) (rest : List Char) :
    dropBlanks (padded width n ++ rest) = padded width n ++ rest := by
  obtain ⟨c, cs, hcons, hdigit⟩ := exists_cons_padded width n
  rw [hcons]
  exact dropBlanks_cons _ (isBlank_of_isDigit hdigit)

theorem scanField_padded {low high n : Nat} (rest : List Char) (hlow : low ≤ n) (hhigh : n ≤ high)
    (h : high < 100) : scanField low high (padded 2 n ++ rest) = .ok (n, rest) := by
  have hlimit : n < fieldLimit := by
    simp only [fieldLimit]
    omega
  simp [scanField, dropBlanks_padded, scanNumber_padded rest (by decide) (show n < 10 ^ 2 by omega)
    hlimit, bind, Except.bind, hlow, hhigh]

theorem stops_at (c : Char) (rest : List Char) (hc : c.isDigit = false) :
    ∀ d ∈ (c :: rest).head?, d.isDigit = false := by
  intro d hd
  rwa [← Option.some.inj hd]

theorem ok_bind {ε α β : Type} (a : α) (f : α → Except ε β) : (Except.ok a >>= f) = f a := rfl

theorem inRange {year low high : Int} (hlow : low ≤ year) (hhigh : year < high) :
    (decide (low ≤ year) && decide (year < high)) = true := by
  rw [Bool.and_eq_true, decide_eq_true_iff, decide_eq_true_iff]
  exact ⟨hlow, hhigh⟩

/-- A year is read with its sign, which it has outside of four digits. -/
theorem scanYear_writeYear {year : Int} (rest : List Char) (hlow : -2147483648 ≤ year)
    (hhigh : year < 2147483648) :
    scanYear (writeYear year ++ '-' :: rest) = .ok (year, '-' :: rest) := by
  obtain ⟨n, hn⟩ : ∃ n, year.natAbs = n := ⟨_, rfl⟩
  have hlimit : n < fieldLimit := by
    simp only [fieldLimit]
    omega
  have hsigned : scanNumber none (padded 4 n ++ '-' :: rest) = .ok (n, '-' :: rest) :=
    scanNumber_none (spells_padded 4 n hlimit) (stops_at '-' rest rfl)
  unfold writeYear scanYear
  rw [hn]
  -- one bind at a time, for otherwise the check of the range is computed
  by_cases hneg : year < 0
  · obtain rfl : year = -(n : Int) := by omega
    have hdrop := dropBlanks_cons (padded 4 n ++ '-' :: rest) (c := '-') rfl
    rw [if_pos hneg, List.cons_append, hdrop]
    simp only
    rw [hsigned, ok_bind]
    simp only [pure, Except.pure]
    rw [ok_bind]
    refine if_pos ?_
    exact inRange hlow hhigh
  · obtain rfl : year = (n : Int) := by omega
    rw [if_neg hneg]
    by_cases hlong : 9999 < (n : Int)
    · have hdrop := dropBlanks_cons (padded 4 n ++ '-' :: rest) (c := '+') rfl
      rw [if_pos hlong, List.cons_append, hdrop]
      simp only
      rw [hsigned, ok_bind]
      simp only [pure, Except.pure]
      rw [ok_bind]
      refine if_pos ?_
      exact inRange hlow hhigh
    · have hnumber : scanNumber (some 4) (padded 4 n ++ '-' :: rest) = .ok (n, '-' :: rest) :=
        scanNumber_padded ('-' :: rest) (by decide) (by omega) hlimit
      obtain ⟨c, cs, hcons, hdigit⟩ := exists_cons_padded 4 n
      have hdrop := dropBlanks_padded 4 n ('-' :: rest)
      rw [if_neg hlong]
      rw [hcons, List.cons_append] at hnumber hdrop ⊢
      rw [hdrop]
      -- a digit is no sign
      split
      · rename_i heq
        cases heq
        cases hdigit
      · rename_i heq
        cases heq
        cases hdigit
      · rw [hnumber, ok_bind]
        simp only [pure, Except.pure]
        rw [ok_bind]
        refine if_pos ?_
        exact inRange hlow hhigh

/-- Digits behind a point, as many as a fraction has: what they stand for, in nanoseconds. -/
theorem scanFraction_padded (width n : Nat) (hwidth : 0 < width) (hnine : width ≤ 9)
    (h : n < 10 ^ width) : scanFraction ('.' :: padded width n ++ ['Z']) =
      .ok (n * Nat.pow 10 (9 - width), ['Z']) := by
  have hlength := length_padded hwidth h
  have hlimit : n < fieldLimit := by
    have hpow : 10 ^ width ≤ 10 ^ 9 := Nat.pow_le_pow_right (by decide) hnine
    simp only [fieldLimit]
    omega
  have htake : (padded width n ++ ['Z']).take 9 = padded width n ++ ['Z'].take (9 - width) := by
    rw [List.take_append, hlength, List.take_of_length_le (by omega)]
  have hstop : ∀ c ∈ (['Z'].take (9 - width)).head?, c.isDigit = false := by
    intro c hc
    have hmem : c ∈ ['Z'] := List.mem_of_mem_take (List.mem_of_mem_head? hc)
    rw [List.mem_singleton.mp hmem]
    rfl
  have hnumber := scanNumber_some (spells_padded width n hlimit) htake hstop
  have hdigits : (padded width n ++ ['Z']).length - ['Z'].length = width := by
    rw [List.length_append, hlength]
    omega
  rw [List.cons_append, scanFraction, hnumber, ok_bind]
  simp only [hdigits]
  rfl

/-- A fraction loses nothing, though it has as few digits as possible. -/
theorem scanFraction_writeFraction {nanos : Nat} (h : nanos < nanosPerSecond) :
    scanFraction (writeFraction nanos ++ ['Z']) = .ok (nanos, ['Z']) := by
  simp only [nanosPerSecond] at h
  unfold writeFraction
  split
  · rename_i hzero
    rw [hzero]
    rfl
  · split
    · have hscan := scanFraction_padded 3 (nanos / 1000000) (by decide) (by decide) (by omega)
      have hback : nanos / 1000000 * Nat.pow 10 (9 - 3) = nanos := by
        show nanos / 1000000 * 1000000 = nanos
        omega
      rwa [hback] at hscan
    · split
      · have hscan := scanFraction_padded 6 (nanos / 1000) (by decide) (by decide) (by omega)
        have hback : nanos / 1000 * Nat.pow 10 (9 - 6) = nanos := by
          show nanos / 1000 * 1000 = nanos
          omega
        rwa [hback] at hscan
      · have hscan := scanFraction_padded 9 nanos (by decide) (by decide) (by omega)
        have hback : nanos * Nat.pow 10 (9 - 9) = nanos := Nat.mul_one nanos
        rwa [hback] at hscan

/-- The fields of the text of a point in time. -/
def fieldsOf (t : Timestamp) : Fields where
  date := Date.ofDays (t.seconds / 86400)
  hour := (t.seconds % 86400).toNat / 3600
  minute := (t.seconds % 86400).toNat / 60 % 60
  second := (t.seconds % 86400).toNat % 60 + if nanosPerSecond ≤ t.nanos then 1 else 0
  nanos := if nanosPerSecond ≤ t.nanos then t.nanos - nanosPerSecond else t.nanos
  offset := 0

theorem write_eq (t : Timestamp) : write t =
    writeYear (fieldsOf t).date.year ++ '-' :: (padded 2 (fieldsOf t).date.month ++ '-' ::
      (padded 2 (fieldsOf t).date.day ++ 'T' :: (padded 2 (fieldsOf t).hour ++ ':' ::
        (padded 2 (fieldsOf t).minute ++ ':' :: (padded 2 (fieldsOf t).second ++
          (writeFraction (fieldsOf t).nanos ++ ['Z'])))))) := by
  simp [write, fieldsOf]

theorem date_fieldsOf (t : Timestamp) : (fieldsOf t).date.IsValid ∧
    -262143 ≤ (fieldsOf t).date.year ∧ (fieldsOf t).date.year ≤ 262142 := by
  have hmem := t.seconds_mem
  simp only [minSeconds, maxSeconds] at hmem
  have hfirst : -96465292 ≤ t.seconds / 86400 := by omega
  have hlast : t.seconds / 86400 ≤ 95026236 := by omega
  exact ⟨Date.isValid_ofDays _, Date.year_ofDays hfirst hlast⟩

theorem nanos_fieldsOf (t : Timestamp) : (fieldsOf t).nanos < nanosPerSecond := by
  have hlt := t.nanos_lt
  simp only [fieldsOf]
  split <;> omega

theorem scanFields_write (t : Timestamp) : scanFields (write t) = .ok (fieldsOf t, []) := by
  obtain ⟨⟨hmonth, hmonth', hday, hday'⟩, hyear, hyear'⟩ := date_fieldsOf t
  have hdays : (fieldsOf t).date.day ≤ 31 := by
    refine Nat.le_trans hday' ?_
    unfold Date.daysInMonth
    split_ifs <;> decide
  have hhour : (fieldsOf t).hour ≤ 23 := by
    simp only [fieldsOf]
    omega
  have hminute : (fieldsOf t).minute ≤ 59 := by
    simp only [fieldsOf]
    omega
  have hsecond : (fieldsOf t).second ≤ 60 := by
    simp only [fieldsOf]
    split <;> omega
  have hdash (rest : List Char) : scanChar '-' (dropBlanks ('-' :: rest)) = .ok ((), rest) := rfl
  have hcolon (rest : List Char) : scanChar ':' (dropBlanks (':' :: rest)) = .ok ((), rest) := rfl
  have hoffset : scanOffset (dropBlanks ['Z']) = .ok (0, []) := rfl
  have hfraction := scanFraction_writeFraction (nanos_fieldsOf t)
  -- field by field, as they stand in the text
  rw [write_eq, scanFields, scanYear_writeYear _ (by omega) (by omega), ok_bind]
  simp only
  rw [hdash, ok_bind]
  simp only
  rw [scanField_padded _ hmonth hmonth' (by decide), ok_bind]
  simp only
  rw [hdash, ok_bind]
  simp only
  rw [scanField_padded _ hday hdays (by decide), ok_bind]
  simp only [true_or, if_true]
  rw [ok_bind, scanField_padded _ (Nat.zero_le _) hhour (by decide), ok_bind]
  simp only
  rw [hcolon, ok_bind]
  simp only
  rw [scanField_padded _ (Nat.zero_le _) hminute (by decide), ok_bind]
  simp only
  rw [hcolon, ok_bind]
  simp only
  rw [scanField_padded _ (Nat.zero_le _) hsecond (by decide), ok_bind]
  simp only
  rw [hfraction, ok_bind]
  simp only
  rw [hoffset, ok_bind]
  rfl

/-- The seconds of a day add up to the second that is written, if that is not a leap second. -/
theorem seconds_fieldsOf (t : Timestamp) {second : Nat}
    (hsecond : second = (t.seconds % 86400).toNat % 60) : (fieldsOf t).date.toDays * 86400 +
      ((fieldsOf t).hour * 3600 + (fieldsOf t).minute * 60 + second : Nat) - (fieldsOf t).offset =
      t.seconds := by
  simp only [fieldsOf, Date.toDays_ofDays]
  omega

theorem toTimestamp_fieldsOf (t : Timestamp) : (fieldsOf t).toTimestamp = .ok t := by
  obtain ⟨hvalid, hyear, hyear'⟩ := date_fieldsOf t
  have hspanned : (yearInRange (fieldsOf t).date.year && decide (fieldsOf t).date.IsValid) =
      true := by
    rw [Bool.and_eq_true, yearInRange, Bool.and_eq_true, decide_eq_true_iff, decide_eq_true_iff,
      decide_eq_true_iff]
    exact ⟨⟨hyear, hyear'⟩, hvalid⟩
  have hutc : (decide (-86400 < (fieldsOf t).offset) && decide ((fieldsOf t).offset < 86400)) =
      true := rfl
  have hself := t.ofParts?_self
  unfold Fields.toTimestamp
  rw [if_pos hspanned, if_pos hutc]
  by_cases hleap : nanosPerSecond ≤ t.nanos
  · -- a leap second is the sixtieth, and shares the count of the one before it
    have hlast : (t.seconds % 86400).toNat % 60 = 59 := by
      have hminute := t.leap hleap
      omega
    have hsecond : ((fieldsOf t).second == 60) = true := by
      simp only [fieldsOf, if_pos hleap, hlast]
      rfl
    have hnanos : nanosPerSecond + (fieldsOf t).nanos = t.nanos := by
      simp only [fieldsOf, if_pos hleap]
      omega
    simp only [hsecond, if_true, hnanos, seconds_fieldsOf t hlast.symm, hself]
  · have hsecond : (fieldsOf t).second = (t.seconds % 86400).toNat % 60 := by
      simp only [fieldsOf, if_neg hleap, Nat.add_zero]
    have hshort : ((fieldsOf t).second == 60) = false := by
      rw [hsecond, beq_eq_false_iff_ne]
      omega
    have hnanos : (fieldsOf t).nanos = t.nanos := by simp only [fieldsOf, if_neg hleap]
    simp only [hshort, Bool.false_eq_true, if_false, hnanos, seconds_fieldsOf t hsecond, hself]

/-- Every point in time is read back from its text. -/
theorem read_write (t : Timestamp) : read (write t) = .ok t := by
  rw [read, scanFields_write, ok_bind]
  exact toTimestamp_fieldsOf t

end EchoServer.Time.Rfc3339
