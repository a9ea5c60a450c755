import EchoServer.Proofs.Binary64.Shortest
import EchoServer.Proofs.Json.Numbers
import EchoServer.Proofs.Text.Count

namespace EchoServer.Json

open Binary64 (limit topUnit topUnit_pos)
open Text (le_ofDigitChars)

theorem ten_pow_lt_limit : (10 : ℚ) ^ maxPower < limit := by
  have hnat : 10 ^ maxPower < (2 ^ 53 - 1) * 2 ^ 971 := by decide +kernel
  have hq : (10 : ℚ) ^ maxPower < ((2 ^ 53 - 1 : Nat) : ℚ) * topUnit := by
    rw [topUnit]
    exact_mod_cast hnat
  refine hq.trans ?_
  unfold limit
  refine mul_lt_mul_of_pos_right ?_ topUnit_pos
  norm_num

theorem limit_lt_ten_pow : limit < (10 : ℚ) ^ (maxPower + 1) := by
  have hnat : 2 ^ 53 * 2 ^ 971 < 10 ^ (maxPower + 1) := by decide +kernel
  have hq : (2 : ℚ) ^ 53 * topUnit < 10 ^ (maxPower + 1) := by
    rw [topUnit]
    exact_mod_cast hnat
  refine lt_trans ?_ hq
  unfold limit
  refine mul_lt_mul_of_pos_right ?_ topUnit_pos
  norm_num

theorem ofNat_isSome (n : Nat) (h : n ≤ 10 ^ maxPower) : (Binary64.ofNat n).isSome := by
  refine Binary64.ofQuotient_isSome n 1 Nat.one_pos ?_
  have hq : (n : ℚ) ≤ 10 ^ maxPower := by exact_mod_cast h
  rw [Nat.cast_one, div_one]
  exact hq.trans_lt ten_pow_lt_limit

theorem power10_bounds (b : Nat) (hb : b ≤ maxPower) :
    1 ≤ (power10 b).value ∧ (power10 b).value ≤ 10 ^ b * (1 + 1 / 2 ^ 53) := by
  have hle : 10 ^ b ≤ 10 ^ maxPower := Nat.pow_le_pow_right (by decide) hb
  obtain ⟨x, hx⟩ := Option.isSome_iff_exists.mp (ofNat_isSome _ hle)
  have hpower : power10 b = x := by
    rw [power10, Nat.pow_eq, hx]
    rfl
  rw [hpower]
  exact_mod_cast Binary64.ofNat_bounds _ (Nat.pow_pos (by decide)) x hx

theorem scaleBy10_down (x : Binary64) (e : Int) (fuel : Nat) (he : e < 0) :
    (scaleBy10 x e fuel).isSome := by
  induction fuel generalizing x e with
  | zero => rfl
  | succ fuel ih =>
    rw [scaleBy10]
    split
    · rename_i hsmall
      rw [if_neg (by omega)]
      exact Binary64.div_isSome x _ (power10_bounds _ (by omega)).1
    · rename_i hbig
      split
      · rfl
      · rw [if_neg (by omega)]
        obtain ⟨y, hy⟩ := Option.isSome_iff_exists.mp
          (Binary64.div_isSome x _ (power10_bounds maxPower le_rfl).1)
        rw [hy]
        exact ih y _ (by unfold maxPower at *; omega)

/-- A word that is scaled up no further than three and a half units below `2 ^ 1024` leads to a
number: each of the three roundings adds less than one unit. -/
theorem scaleBy10_word (s : Nat) (hs : s < 18446744073709551616) (e : Int)
    (h : e < 0 ∨ (s : ℚ) * 10 ^ e ≤ (2 ^ 53 - 7 / 2) * topUnit) :
    ((Binary64.ofNat s).bind (scaleBy10 · e 4)).isSome := by
  have hsmall : s ≤ 10 ^ maxPower := hs.le.trans (by decide +kernel)
  obtain ⟨x, hx⟩ := Option.isSome_iff_exists.mp (ofNat_isSome s hsmall)
  rw [hx, Option.bind_some]
  rcases lt_or_ge e 0 with hneg | hpos
  · exact scaleBy10_down x e 4 hneg
  · obtain ⟨b, rfl⟩ := Int.eq_ofNat_of_zero_le hpos
    have hle := h.resolve_left (by omega)
    rw [zpow_natCast] at hle
    -- the bounds of rounding are for positive numbers, so zero is scaled by itself
    rcases Nat.eq_zero_or_pos s with rfl | hs0
    · obtain rfl : Binary64.zero = x := Option.some.inj hx
      rw [scaleBy10]
      split
      · refine Binary64.mul_isSome _ _ ?_
        have hzero : Binary64.zero.value = 0 := by
          rw [Binary64.value, show Binary64.zero.parts.1 = 0 from rfl, Nat.cast_zero, zero_mul]
        rw [hzero, zero_mul]
        exact mul_pos (by norm_num) topUnit_pos
      · rfl
    · obtain ⟨-, hvalue⟩ := Binary64.ofNat_bounds s hs0 x hx
      have hb : b ≤ maxPower := by
        -- a higher power alone would lead beyond the limit
        by_contra hc
        have hone : (1 : ℚ) ≤ s := by exact_mod_cast hs0
        have hpow : (10 : ℚ) ^ (maxPower + 1) ≤ 10 ^ b :=
          pow_le_pow_right₀ (by norm_num) (by omega)
        have hlimit : (2 ^ 53 - 7 / 2) * topUnit ≤ limit :=
          mul_le_mul_of_nonneg_right (by norm_num) topUnit_pos.le
        have hgrow : (10 : ℚ) ^ b ≤ s * 10 ^ b := le_mul_of_one_le_left (by positivity) hone
        exact absurd (hpow.trans (hgrow.trans (hle.trans hlimit))) (not_le.mpr limit_lt_ten_pow)
      obtain ⟨-, hpower⟩ := power10_bounds b hb
      rw [scaleBy10, if_pos (by simpa using hb), if_pos hpos]
      refine Binary64.mul_isSome _ _ ?_
      have htop := topUnit_pos
      -- the word and the power are rounded first, and their product after them
      calc x.value * (power10 b).value
          ≤ s * (1 + 1 / 2 ^ 53) * (10 ^ b * (1 + 1 / 2 ^ 53)) :=
            mul_le_mul hvalue hpower (Binary64.value_nonneg _) (by positivity)
        _ = s * 10 ^ b * (1 + 1 / 2 ^ 53) ^ 2 := by ring
        _ ≤ (2 ^ 53 - 7 / 2) * topUnit * (1 + 1 / 2 ^ 53) ^ 2 := by gcongr
        _ < limit := by
          unfold limit
          rw [mul_right_comm]
          exact mul_lt_mul_of_pos_right (by norm_num) htop

/-- The digits of a numeral as a number. -/
def Numeral.word (n : Numeral) : Nat := Nat.ofDigitChars 10 (n.whole ++ n.fraction) 0

/-- The power of ten by which the digits of a numeral are scaled. -/
def Numeral.scale (n : Numeral) : Int :=
  (match n.exponent with
    | none => 0
    | some (negative, ds) =>
      if negative then -(Nat.ofDigitChars 10 ds 0 : Int) else Nat.ofDigitChars 10 ds 0) -
    n.fraction.length

theorem absorbDigits_of_fits (s : Nat) (ds : List Char)
    (h : Nat.ofDigitChars 10 ds s < 18446744073709551616) :
    absorbDigits s ds = (Nat.ofDigitChars 10 ds s, []) := by
  induction ds generalizing s with
  | nil => rfl
  | cons d ds ih =>
    have hzero : '0'.toNat = 48 := rfl
    rw [Nat.ofDigitChars_cons, hzero, mul_comm 10 s] at h ⊢
    have hnext := le_ofDigitChars (s * 10 + (d.toNat - 48)) ds
    rw [absorbDigits, if_pos (by omega), ih _ h]

/-- A numeral whose digits fit a word is too large only if that word is too large when it is
scaled. -/
theorem magnitude_isSome (n : Numeral) (hword : n.word < 18446744073709551616)
    (hexp : ∀ p ∈ n.exponent, p.1 = true ∨ Nat.ofDigitChars 10 p.2 0 ≤ maxExponent)
    (h : ((Binary64.ofNat n.word).bind (scaleBy10 · n.scale 4)).isSome) : n.magnitude.isSome := by
  have hsplit : n.word = Nat.ofDigitChars 10 n.fraction (Nat.ofDigitChars 10 n.whole 0) :=
    Nat.ofDigitChars_append 0
  have hwhole := absorbDigits_of_fits 0 n.whole
    ((le_ofDigitChars _ n.fraction).trans_lt (hsplit ▸ hword))
  have hfraction := absorbDigits_of_fits _ n.fraction (hsplit ▸ hword)
  rw [← hsplit] at hfraction
  unfold Numeral.scale at h
  simp only [Numeral.magnitude, hwhole, hfraction, List.length_nil]
  cases he : n.exponent with
  | none => simpa [he] using h
  | some p =>
    obtain ⟨negative, ds⟩ := p
    simp only [he] at h ⊢
    have hbase (e : Int) : ((0 : Nat) : Int) - ((n.fraction.length : Int) - (0 : Nat)) + e =
        e - n.fraction.length := by omega
    split
    · rename_i hlarge
      obtain rfl : negative = true := (hexp _ he).resolve_right (not_le.mpr hlarge)
      simp
    · cases negative with
      | true =>
        simp only [if_true] at h ⊢
        rwa [sub_eq_add_neg, hbase]
      | false =>
        simp only [Bool.false_eq_true, if_false] at h ⊢
        rwa [hbase]

/-- The numeral that digits are laid out as, with the leading one at `10 ^ e`. -/
def placed (negative : Bool) (cs : List Char) (e : Int) : Numeral :=
  if -5 ≤ e && e ≤ 15 then
    if e < 0 then ⟨negative, ['0'], List.replicate ((-e).toNat - 1) '0' ++ cs, none⟩
    else ⟨negative, cs.take (e.toNat + 1) ++ List.replicate (e.toNat + 1 - cs.length) '0',
      if (cs.drop (e.toNat + 1)).isEmpty then ['0'] else cs.drop (e.toNat + 1), none⟩
  else ⟨negative, cs.take 1, cs.drop 1,
    some (decide (e < 0), Binary64.padLeft 2 (Nat.toDigits 10 e.natAbs))⟩

section
variable {negative : Bool} {cs : List Char} {e : Int}

theorem place_eq_text (hcs : cs = [] → e = 0) :
    floatLayout.place cs e = (placed negative cs e).text := by
  unfold Binary64.Layout.place placed
  show (if -5 ≤ e && e ≤ 15 then _ else _) = _
  split
  · split
    · rename_i hneg
      have hne : cs ≠ [] := fun h => by
        have := hcs h
        omega
      simp [Numeral.text, fractionText, exponentText, hne]
    · by_cases hback : cs.drop (e.toNat + 1) = []
      · simp [Numeral.text, fractionText, exponentText, hback]
      · simp [Numeral.text, fractionText, exponentText, hback]
  · have hfraction : (if cs.length ≤ 1 then [] else '.' :: cs.drop 1) =
        fractionText (cs.drop 1) := by
      unfold fractionText
      simp only [List.isEmpty_iff, List.drop_eq_nil_iff]
    dsimp only
    rw [hfraction]
    by_cases hneg : e < 0 <;> simp [Numeral.text, exponentText, hneg, floatLayout]

theorem placed_proper (hcs : cs = [] → e = 0) (hdigits : ∀ c ∈ cs, c.isDigit = true)
    (hlead : ∀ c ∈ cs.head?, c ≠ '0') : (placed negative cs e).Proper := by
  have hzeros (n : Nat) : ∀ c ∈ List.replicate n '0', c.isDigit = true := by
    intro c hc
    rw [List.eq_of_mem_replicate hc]
    rfl
  have htake (n : Nat) : ∀ c ∈ cs.take n, c.isDigit = true := fun c hc =>
    hdigits c (List.mem_of_mem_take hc)
  have hdrop (n : Nat) : ∀ c ∈ cs.drop n, c.isDigit = true := fun c hc =>
    hdigits c (List.mem_of_mem_drop hc)
  unfold placed
  split
  · split
    · refine ⟨by simp, fun _ => rfl, fun c hc => ?_, fun p hp => by cases hp⟩
      simp only [List.cons_append, List.nil_append, List.mem_cons, List.mem_append] at hc
      rcases hc with rfl | hc | hc
      · rfl
      · exact hzeros _ c hc
      · exact hdigits c hc
    · cases cs with
      | nil =>
        obtain rfl := hcs rfl
        exact ⟨by simp, fun _ => rfl, by simp, fun p hp => by cases hp⟩
      | cons d ds =>
        refine ⟨by simp, fun h => ?_, fun c hc => ?_, fun p hp => by cases hp⟩
        · exact absurd (by simpa using h) (hlead d rfl)
        · simp only [List.mem_append] at hc
          rcases hc with (hc | hc) | hc
          · exact htake _ c hc
          · exact hzeros _ c hc
          · split at hc
            · obtain rfl := List.mem_singleton.mp hc
              rfl
            · exact hdrop _ c hc
  · rename_i hrange
    cases cs with
    | nil =>
      rw [hcs rfl] at hrange
      exact absurd rfl hrange
    | cons d ds =>
      refine ⟨by simp, fun h => ?_, fun c hc => ?_, fun p hp => ?_⟩
      · exact absurd (by simpa using h) (hlead d rfl)
      · simp only [List.mem_append] at hc
        rcases hc with hc | hc
        · exact htake _ c hc
        · exact hdrop _ c hc
      · obtain rfl := Option.some.inj hp
        refine ⟨by simp [Binary64.padLeft, Nat.toDigits_ne_nil], fun c hc => ?_⟩
        simp only [Binary64.padLeft, List.mem_append] at hc
        rcases hc with hc | hc
        · exact hzeros _ c hc
        · exact Nat.isDigit_of_mem_toDigits (by decide) (by decide) hc

theorem ofDigitChars_padLeft (n k : Nat) :
    Nat.ofDigitChars 10 (Binary64.padLeft k (Nat.toDigits 10 n)) 0 = n := by
  rw [Binary64.padLeft, Nat.ofDigitChars_append, Nat.ofDigitChars_replicate_zero, Nat.mul_zero,
    Nat.ofDigitChars_ten_toDigits]

theorem ofDigitChars_lt (hdigits : ∀ c ∈ cs, c.isDigit = true) :
    Nat.ofDigitChars 10 cs 0 < 10 ^ cs.length := by
  induction cs with
  | nil => decide
  | cons c cs ih =>
    have hc : c.toNat ≤ 57 := by
      have := hdigits c (by simp)
      simp only [Char.isDigit, Bool.and_eq_true, decide_eq_true_eq, UInt32.le_iff_toNat_le] at this
      exact this.2
    have htail := ih fun d hd => hdigits d (by simp [hd])
    have hzero : '0'.toNat = 48 := rfl
    rw [Nat.ofDigitChars_cons, Nat.ofDigitChars_eq_ofDigitChars_zero, List.length_cons,
      Nat.pow_succ, hzero]
    have hnine : 10 * 0 + (c.toNat - 48) ≤ 9 := by omega
    calc 10 ^ cs.length * (10 * 0 + (c.toNat - 48)) + Nat.ofDigitChars 10 cs 0
        < 10 ^ cs.length * 9 + 10 ^ cs.length :=
          Nat.add_lt_add_of_le_of_lt (Nat.mul_le_mul_left _ hnine) htail
      _ = 10 ^ cs.length * 10 := by ring

/-- The digits of a number as it is laid out are its digits, or it is scaled down. -/
theorem placed_word (hcs : cs = [] → e = 0) (hdigits : ∀ c ∈ cs, c.isDigit = true) :
    (placed negative cs e).word ≤ max (Nat.ofDigitChars 10 cs 0) (10 ^ 17) ∧
      ((placed negative cs e).scale < 0 ∨
        (placed negative cs e).word = Nat.ofDigitChars 10 cs 0 ∧
          (placed negative cs e).scale = e + 1 - cs.length) := by
  unfold placed
  split
  · rename_i hrange
    simp only [Bool.and_eq_true, decide_eq_true_eq] at hrange
    split
    -- behind the point: a zero and more of them stand before the digits
    · have hword : Nat.ofDigitChars 10 (['0'] ++ (List.replicate ((-e).toNat - 1) '0' ++ cs)) 0 =
          Nat.ofDigitChars 10 cs 0 := by
        rw [Nat.ofDigitChars_append, Nat.ofDigitChars_append, Nat.ofDigitChars_replicate_zero]
        rfl
      refine ⟨hword.le.trans (le_max_left _ _), Or.inr ⟨hword, ?_⟩⟩
      simp only [Numeral.scale, List.length_append, List.length_replicate]
      omega
    · by_cases hback : cs.drop (e.toNat + 1) = []
      -- a whole number: zeros behind the digits make the word longer, and the zero behind the
      -- point scales it down
      · have hlen : cs.length ≤ e.toNat + 1 := List.drop_eq_nil_iff.mp hback
        have hword : Numeral.word ⟨negative, cs.take (e.toNat + 1) ++
            List.replicate (e.toNat + 1 - cs.length) '0', ['0'], none⟩ =
            10 * (10 ^ (e.toNat + 1 - cs.length) * Nat.ofDigitChars 10 cs 0) := by
          rw [Numeral.word, List.take_of_length_le hlen, Nat.ofDigitChars_append,
            Nat.ofDigitChars_append, Nat.ofDigitChars_replicate_zero]
          rfl
        rw [hback, List.isEmpty_nil, if_pos rfl]
        refine ⟨le_trans ?_ (le_max_right _ _), Or.inl (by simp [Numeral.scale])⟩
        rw [hword]
        calc 10 * (10 ^ (e.toNat + 1 - cs.length) * Nat.ofDigitChars 10 cs 0)
            ≤ 10 * (10 ^ (e.toNat + 1 - cs.length) * 10 ^ cs.length) := by
              gcongr
              exact (ofDigitChars_lt hdigits).le
          _ = 10 ^ (e.toNat + 2) := by
            rw [← Nat.pow_add, Nat.sub_add_cancel hlen]
            ring
          _ ≤ 10 ^ 17 := Nat.pow_le_pow_right (by decide) (by omega)
      -- the point stands among the digits
      · have hlen : e.toNat + 1 < cs.length := by simpa using hback
        have hword : Numeral.word ⟨negative, cs.take (e.toNat + 1) ++
            List.replicate (e.toNat + 1 - cs.length) '0', cs.drop (e.toNat + 1), none⟩ =
            Nat.ofDigitChars 10 cs 0 := by
          rw [Numeral.word, Nat.sub_eq_zero_of_le hlen.le, List.replicate_zero, List.append_nil,
            List.take_append_drop]
        simp only [List.isEmpty_iff, hback, if_false]
        refine ⟨hword.le.trans (le_max_left _ _), Or.inr ⟨hword, ?_⟩⟩
        simp only [Numeral.scale, List.length_drop]
        omega
  -- one digit before the point, and an exponent
  · rename_i hrange
    have hne : cs ≠ [] := fun h => by
      rw [hcs h] at hrange
      exact hrange rfl
    have hpos := List.length_pos_iff.mpr hne
    have hword : Numeral.word ⟨negative, cs.take 1, cs.drop 1, some (decide (e < 0),
        Binary64.padLeft 2 (Nat.toDigits 10 e.natAbs))⟩ = Nat.ofDigitChars 10 cs 0 := by
      rw [Numeral.word, List.take_append_drop]
    refine ⟨hword.le.trans (le_max_left _ _), Or.inr ⟨hword, ?_⟩⟩
    simp only [Numeral.scale, ofDigitChars_padLeft, List.length_drop, decide_eq_true_eq]
    split <;> omega

end

/-- The digits that are written of a number. -/
def floatDigits (x : Binary64) : List Char :=
  Binary64.dropTrailingZeros (Nat.toDigits 10 x.shortest.digits)

/-- The exponent of the leading digit. -/
def floatExponent (x : Binary64) : Int :=
  x.shortest.exponent + ((Nat.toDigits 10 x.shortest.digits).length - 1 : Nat)

/-- The digits as a number. -/
def floatWord (x : Binary64) : Nat := Nat.ofDigitChars 10 (floatDigits x) 0

/-- The power of ten by which they are scaled. -/
def floatScale (x : Binary64) : Int := floatExponent x + 1 - (floatDigits x).length

theorem dropTrailingZeros_append (ds : List Char) :
    ∃ z, ds = Binary64.dropTrailingZeros ds ++ List.replicate z '0' := by
  refine ⟨(ds.reverse.takeWhile (· == '0')).length, ?_⟩
  have hzeros : ds.reverse.takeWhile (· == '0') =
      List.replicate (ds.reverse.takeWhile (· == '0')).length '0' := by
    refine List.eq_replicate_of_mem fun c hc => ?_
    simpa using List.all_eq_true.mp List.all_takeWhile c hc
  have hsplit : ds.reverse.takeWhile (· == '0') ++ ds.reverse.dropWhile (· == '0') = ds.reverse :=
    List.takeWhile_append_dropWhile
  have hreverse := congrArg List.reverse hsplit
  rw [List.reverse_append, List.reverse_reverse, hzeros, List.reverse_replicate] at hreverse
  exact hreverse.symm

section
variable (x : Binary64) (hx : x.isZero = false)

theorem exists_zeros : ∃ z, Nat.toDigits 10 x.shortest.digits =
    floatDigits x ++ List.replicate z '0' :=
  dropTrailingZeros_append _

theorem digits_eq (z : Nat)
    (hz : Nat.toDigits 10 x.shortest.digits = floatDigits x ++ List.replicate z '0') :
    x.shortest.digits = 10 ^ z * floatWord x := by
  rw [floatWord, ← Nat.ofDigitChars_replicate_zero, ← Nat.ofDigitChars_append, ← hz,
    Nat.ofDigitChars_ten_toDigits]

theorem isDigit_of_floatDigits : ∀ c ∈ floatDigits x, c.isDigit = true := by
  intro c hc
  obtain ⟨z, hz⟩ := exists_zeros x
  exact Nat.isDigit_of_mem_toDigits (b := 10) (by decide) (by decide)
    (n := x.shortest.digits) (by simp [hz, hc])

include hx

/-- Only a number without digits has none that are written. -/
theorem floatExponent_of_nil (hnil : floatDigits x = []) : floatExponent x = 0 := by
  obtain ⟨z, hz⟩ := exists_zeros x
  have hzero : x.shortest.digits = 0 := by
    rw [digits_eq x z hz, floatWord, hnil]
    rfl
  have hshortest := (Binary64.shortest_bounds x hx).2.2 hzero
  rw [floatExponent, hshortest]
  rfl

theorem floatDigits_of_zero (hzero : x.shortest.digits = 0) : floatDigits x = [] := by
  rw [floatDigits, (Binary64.shortest_bounds x hx).2.2 hzero]
  rfl

theorem head_floatDigits : ∀ c ∈ (floatDigits x).head?, c ≠ '0' := by
  intro c hc
  obtain ⟨z, hz⟩ := exists_zeros x
  rcases Nat.eq_zero_or_pos x.shortest.digits with hzero | hpos
  · rw [floatDigits_of_zero x hx hzero] at hc
    cases hc
  · refine head_toDigits_ne_zero _ hpos c ?_
    rw [hz, List.head?_append, Option.mem_def.mp hc]
    rfl

omit hx

theorem floatWord_value :
    (floatWord x : ℚ) * 10 ^ floatScale x = x.shortest.value := by
  obtain ⟨z, hz⟩ := exists_zeros x
  have hlen : (Nat.toDigits 10 x.shortest.digits).length = (floatDigits x).length + z := by
    simp [hz]
  have hq : (x.shortest.digits : ℚ) = 10 ^ z * floatWord x := by
    exact_mod_cast digits_eq x z hz
  have hscale : floatScale x = x.shortest.exponent + z := by
    have hpos : 0 < (Nat.toDigits 10 x.shortest.digits).length := Nat.length_toDigits_pos
    rw [floatScale, floatExponent]
    omega
  rw [hscale, zpow_add₀ (by norm_num), zpow_natCast, Binary64.Decimal.value, hq]
  ring

include hx

theorem floatWord_lt : floatWord x < 2 * 10 ^ 18 := by
  obtain ⟨z, hz⟩ := exists_zeros x
  have hpos : 0 < 10 ^ z := Nat.pow_pos (by decide)
  calc floatWord x ≤ 10 ^ z * floatWord x := Nat.le_mul_of_pos_left _ hpos
    _ = x.shortest.digits := (digits_eq x z hz).symm
    _ < 2 * 10 ^ 18 := (Binary64.shortest_bounds x hx).2.1

theorem floatWord_le_limit : (floatWord x : ℚ) * 10 ^ floatScale x ≤ limit := by
  rw [floatWord_value]
  exact (Binary64.shortest_bounds x hx).1.trans x.value_add_half_le_limit

omit hx

/-- The three greatest numbers. -/
def nearGreatest (i : Fin 3) : Binary64 := ⟨false, (i.castLE (by decide)).rev⟩

theorem nearGreatest_isSome (i : Fin 3) :
    ((Binary64.ofNat (floatWord (nearGreatest i))).bind
      (scaleBy10 · (floatScale (nearGreatest i)) 4)).isSome := by
  revert i
  decide +kernel

include hx

/-- The digits of a number are not too large when they are scaled. -/
theorem floatWord_isSome :
    ((Binary64.ofNat (floatWord x)).bind (scaleBy10 · (floatScale x) 4)).isSome := by
  -- three roundings may take three units, which the three greatest numbers do not have
  by_cases hlow : x.bits.val + 3 < Binary64.patterns
  · refine scaleBy10_word _ ((floatWord_lt x hx).trans (by decide)) _ (Or.inr ?_)
    rw [floatWord_value]
    exact (Binary64.shortest_bounds x hx).1.trans (x.value_add_half_le hlow)
  · obtain ⟨negative, bits⟩ := x
    have hlt := bits.isLt
    dsimp only at hlow
    let i : Fin 3 := ⟨Binary64.patterns - 1 - bits.val, by omega⟩
    have hbits : bits = (nearGreatest i).bits := by
      apply Fin.ext
      simp only [nearGreatest, Fin.val_rev, Fin.val_castLE, i]
      omega
    rw [hbits]
    exact nearGreatest_isSome i

theorem floatExponent_le (hne : floatDigits x ≠ []) :
    floatExponent x ≤ maxExponent := by
  obtain ⟨z, hz⟩ := exists_zeros x
  have hpos : 0 < floatWord x := by
    refine Nat.pos_of_ne_zero fun h => hne (floatDigits_of_zero x hx ?_)
    rw [digits_eq x z hz, h, Nat.mul_zero]
  have hone : (1 : ℚ) ≤ floatWord x := by exact_mod_cast hpos
  have hscale : floatScale x < ((maxPower + 1 : Nat) : Int) := by
    have hlt : (10 : ℚ) ^ floatScale x < 10 ^ ((maxPower + 1 : Nat) : Int) := by
      rw [zpow_natCast]
      calc (10 : ℚ) ^ floatScale x ≤ floatWord x * 10 ^ floatScale x :=
            le_mul_of_one_le_left (by positivity) hone
        _ ≤ limit := floatWord_le_limit x hx
        _ < 10 ^ (maxPower + 1) := limit_lt_ten_pow
    exact (zpow_lt_zpow_iff_right₀ (by norm_num)).mp hlt
  have hlen : (floatDigits x).length ≤ 19 := by
    have hdigits : x.shortest.digits < 10 ^ 19 :=
      (Binary64.shortest_bounds x hx).2.1.trans (by decide)
    have := (Nat.length_toDigits_le_iff (by decide) (by decide)).mpr hdigits
    rw [hz, List.length_append] at this
    omega
  unfold floatScale at hscale
  unfold maxPower at hscale
  unfold maxExponent
  omega

/-- The numeral that is written of a number is not too large. -/
theorem placed_isSome (negative : Bool) :
    (placed negative (floatDigits x) (floatExponent x)).magnitude.isSome := by
  have hcs := floatExponent_of_nil x hx
  obtain ⟨hword, hscale⟩ := @placed_word negative _ _ hcs (isDigit_of_floatDigits x)
  have hfits : (placed negative (floatDigits x) (floatExponent x)).word <
      18446744073709551616 :=
    hword.trans_lt (max_lt ((floatWord_lt x hx).trans (by decide)) (by decide))
  refine magnitude_isSome _ hfits ?_ ?_
  · intro p hp
    unfold placed at hp
    split at hp
    · split at hp <;> cases hp
    · rename_i hrange
      obtain rfl := Option.some.inj hp
      rcases lt_or_ge (floatExponent x) 0 with hneg | hpos
      · exact Or.inl (decide_eq_true hneg)
      · right
        have hle := floatExponent_le x hx fun h => by
          rw [hcs h] at hrange
          exact hrange rfl
        rw [ofDigitChars_padLeft]
        omega
  · rcases hscale with hneg | ⟨hsame, hexponent⟩
    · exact scaleBy10_word _ hfits _ (Or.inl hneg)
    · rw [hsame, hexponent]
      exact floatWord_isSome x hx

end

/-- The number that the text of `n` is read as. -/
def rereadNumber (n : JsonNumber) : JsonNumber :=
  match (readValue 1 (utf8 (numberText n))).1 with
  | .number m => m
  | _ => n

theorem rereadNumber_of_text (n m : JsonNumber)
    (h : ∀ fuel rest, Follows rest →
      readValue (fuel + 1) (utf8 (numberText n) ++ rest) = (.number m, some rest)) :
    rereadNumber n = m := by
  have hread := h 0 [] follows_nil
  rw [List.append_nil] at hread
  rw [rereadNumber, hread]

theorem rereadNumber_integer (n : WideInt) : rereadNumber (.integer n) = .integer n :=
  rereadNumber_of_text _ _ fun fuel rest hr => readValue_integer fuel n rest hr

/-- The text of a binary64 number is read as a number. -/
theorem exists_readValue_float (x : Binary64) :
    ∃ m : JsonNumber, ∀ fuel rest, Follows rest →
      readValue (fuel + 1) (utf8 (numberText (.float x)) ++ rest) = (.number m, some rest) := by
  have hnumeral (n : Numeral) (hproper : n.Proper) (hsome : n.value.isSome)
      (htext : numberText (.float x) = (if n.negative then ['-'] else []) ++ n.text) :
      ∃ m : JsonNumber, ∀ fuel rest, Follows rest →
        readValue (fuel + 1) (utf8 (numberText (.float x)) ++ rest) = (.number m, some rest) := by
    obtain ⟨m, hm⟩ := Option.isSome_iff_exists.mp hsome
    refine ⟨m, fun fuel rest hr => ?_⟩
    rw [htext, readValue_text fuel n rest hproper hr, numberReading, hm]
  cases hx : x.isZero with
  | true =>
    have hproper : (⟨x.negative, ['0'], ['0'], none⟩ : Numeral).Proper :=
      ⟨by simp, fun _ => rfl, by simp, fun p hp => by cases hp⟩
    refine hnumeral _ hproper ?_ ?_
    · cases x.negative <;> rfl
    · rw [numberText, Binary64.Layout.text, hx]
      cases x.negative <;> rfl
  | false =>
    have hcs := floatExponent_of_nil x hx
    refine hnumeral (placed x.negative (floatDigits x) (floatExponent x))
      (placed_proper hcs (isDigit_of_floatDigits x) (head_floatDigits x hx)) ?_ ?_
    · rw [Numeral.value]
      split
      · rfl
      · rw [Option.isSome_map]
        exact placed_isSome x hx x.negative
    · have hsign : (placed x.negative (floatDigits x) (floatExponent x)).negative = x.negative := by
        unfold placed
        split
        · split <;> rfl
        · rfl
      rw [hsign, ← place_eq_text hcs, numberText, Binary64.Layout.text, hx]
      rfl

/-- The text of a number is read as a number, whatever comes behind it. -/
theorem readValue_number (fuel : Nat) (n : JsonNumber) (rest : List UInt8) (hr : Follows rest) :
    readValue (fuel + 1) (utf8 (numberText n) ++ rest) = (.number (rereadNumber n), some rest) := by
  cases n with
  | integer i =>
    rw [rereadNumber_integer]
    exact readValue_integer fuel i rest hr
  | float x =>
    obtain ⟨m, hm⟩ := exists_readValue_float x
    rw [rereadNumber_of_text _ m hm]
    exact hm fuel rest hr

end EchoServer.Json
