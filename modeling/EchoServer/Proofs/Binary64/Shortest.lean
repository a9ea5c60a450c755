import EchoServer.Binary64.Shortest
import EchoServer.Proofs.Binary64.Rounding

namespace EchoServer.Binary64

/-- What a decimal stands for. -/
def Decimal.value (d : Decimal) : ℚ := d.digits * 10 ^ d.exponent

theorem power10_snd_pos (e : Int) : 0 < (power10 e).2 := by
  unfold power10
  split
  · exact Nat.one_pos
  · exact Nat.pow_pos (by decide)

theorem power10_eq (e : Int) : ((power10 e).1 : ℚ) = 10 ^ e * (power10 e).2 := by
  unfold power10
  split
  · rename_i he
    obtain ⟨n, rfl⟩ := Int.eq_ofNat_of_zero_le he
    simp
  · rename_i he
    obtain ⟨n, hn⟩ : ∃ n : Nat, e = -n := ⟨(-e).toNat, by omega⟩
    subst hn
    simp

theorem lt_floorLog10 (num den : Nat) (hnum : 0 < num) (hden : 0 < den) :
    (num : ℚ) / den < 10 ^ (floorLog10 num den + 1) := by
  have hd : (0 : ℚ) < den := by exact_mod_cast hden
  have hn : (0 : ℚ) < num := by exact_mod_cast hnum
  unfold floorLog10
  split
  · have hdigits : num / den < 10 ^ (Nat.toDigits 10 (num / den)).length :=
      (Nat.length_toDigits_le_iff (by decide) Nat.length_toDigits_pos).mp le_rfl
    rw [sub_add_cancel, div_lt_iff₀ hd]
    exact_mod_cast (Nat.div_lt_iff_lt_mul hden).mp hdigits
  · rename_i hlt
    dsimp only
    obtain ⟨k, hk⟩ : ∃ k, (Nat.toDigits 10 (den / num)).length = k + 1 :=
      Nat.exists_eq_add_one.mpr Nat.length_toDigits_pos
    rw [hk, Nat.add_sub_cancel]
    split
    · have hlow : num * 10 ^ k ≤ den := by
        rcases Nat.eq_zero_or_pos k with rfl | hpos
        · omega
        · have hge : 10 ^ k ≤ den / num := by
            by_contra hc
            have := (Nat.length_toDigits_le_iff (by decide) hpos).mpr (not_le.mp hc)
            omega
          rw [mul_comm]
          exact (Nat.le_div_iff_mul_le hnum).mp hge
      have hlowq : (num : ℚ) * 10 ^ k ≤ den := by exact_mod_cast hlow
      have hexp : -(((k + 1 : Nat) : Int) - 1) + 1 = 1 - (k : Int) := by
        push_cast
        ring
      rw [hexp, div_lt_iff₀ hd, zpow_sub₀ (by norm_num), zpow_one, zpow_natCast, div_mul_eq_mul_div,
        lt_div_iff₀ (by positivity)]
      linarith
    · rename_i hge
      have hgeq : (num : ℚ) * 10 ^ k < den := by exact_mod_cast not_le.mp hge
      have hexp : -((k + 1 : Nat) : Int) + 1 = -(k : Int) := by
        push_cast
        ring
      rw [hexp, div_lt_iff₀ hd, zpow_neg, zpow_natCast, inv_mul_eq_div, lt_div_iff₀ (by positivity)]
      exact hgeq

theorem neighbour_inside (inside : Nat → Bool) (nearer : Bool) (k n : Nat)
    (h : (if inside k && k != 0 then
        if inside (k + 1) && nearer then some (k + 1) else some k
      else if inside (k + 1) then some (k + 1) else none) = some n) : 0 < n ∧ inside n = true := by
  split at h
  · rename_i hk
    simp only [Bool.and_eq_true, bne_iff_ne] at hk
    split at h
    · rename_i hnext
      simp only [Bool.and_eq_true] at hnext
      obtain rfl := Option.some.inj h
      exact ⟨k.succ_pos, hnext.1⟩
    · obtain rfl := Option.some.inj h
      exact ⟨Nat.pos_of_ne_zero hk.2, hk.1⟩
  · split at h
    · rename_i hnext
      obtain rfl := Option.some.inj h
      exact ⟨k.succ_pos, hnext⟩
    · cases h

/-- A point of a grid that is found in an interval is positive and not above it. -/
theorem onGrid?_le (i : Interval) (e : Int) (k : Nat) (h : i.onGrid? e = some k) :
    0 < k ∧ (k : ℚ) * 10 ^ e ≤ i.upper * 2 ^ i.exponent := by
  have hp := power10_eq e
  have hr : (0 : ℚ) < (power10 e).2 := by exact_mod_cast power10_snd_pos e
  have hs := scaled_eq 1 i.exponent
  have hb : (0 : ℚ) < (scaled 1 i.exponent).2 := by exact_mod_cast scaled_snd_pos 1 i.exponent
  obtain ⟨hk, hinside⟩ := neighbour_inside (fun n =>
    let v := n * ((power10 e).1 * (scaled 1 i.exponent).2)
    let unit := (scaled 1 i.exponent).1 * (power10 e).2
    if i.closed then i.lower * unit ≤ v && v ≤ i.upper * unit
    else i.lower * unit < v && v < i.upper * unit) _ _ k h
  have hle : k * ((power10 e).1 * (scaled 1 i.exponent).2) ≤
      i.upper * ((scaled 1 i.exponent).1 * (power10 e).2) := by
    dsimp only at hinside
    split at hinside
    · simp only [Bool.and_eq_true, decide_eq_true_eq] at hinside
      exact hinside.2
    · simp only [Bool.and_eq_true, decide_eq_true_eq] at hinside
      exact hinside.2.le
  have hq : (k : ℚ) * ((power10 e).1 * (scaled 1 i.exponent).2) ≤
      i.upper * ((scaled 1 i.exponent).1 * (power10 e).2) := by exact_mod_cast hle
  rw [hp, hs, Nat.cast_one, one_mul] at hq
  refine ⟨hk, le_of_mul_le_mul_right ?_ (mul_pos hr hb)⟩
  linarith

/-- A search comes to nothing, or to a point of one of its grids. -/
theorem search_onGrid? (i : Interval) (top : Int) (n fuel : Nat) :
    i.search top n fuel = ⟨0, 0⟩ ∨ ∃ j < n + fuel, ∃ k, i.onGrid? (top - j) = some k ∧
      i.search top n fuel = ⟨k, top - j⟩ := by
  induction fuel generalizing n with
  | zero => exact Or.inl rfl
  | succ fuel ih =>
    rw [Interval.search]
    split
    · rename_i k hk
      exact Or.inr ⟨n, by omega, k, hk, rfl⟩
    · rcases ih (n + 1) with hnone | ⟨j, hj, k, hk, hfound⟩
      · exact Or.inl hnone
      · exact Or.inr ⟨j, by omega, k, hk, hfound⟩

/-- The unit of the last place of a number. -/
def unit (x : Binary64) : ℚ := 2 ^ x.parts.2

theorem parts_pos (x : Binary64) (hx : x.isZero = false) : 0 < x.parts.1 := by
  have hbits : x.bits.val ≠ 0 := by simpa [isZero] using hx
  have hpos : 0 < fractions := by decide
  unfold parts
  dsimp only
  split
  · rename_i hfield
    have := Nat.div_add_mod x.bits.val fractions
    simp only [hfield] at this
    dsimp only
    omega
  · dsimp only
    omega

theorem interval_eq (x : Binary64) :
    (x.interval.upper : ℚ) * 2 ^ x.interval.exponent = x.value + x.unit / 2 ∧
      (x.interval.middle : ℚ) * 2 ^ x.interval.exponent = x.value := by
  have hexp : (2 : ℚ) ^ (x.parts.2 - 2) = 2 ^ x.parts.2 / 4 := by
    rw [zpow_sub₀ (by norm_num)]
    norm_num
  have hupper : x.interval.upper = 4 * x.parts.1 + 2 := rfl
  have hmiddle : x.interval.middle = 4 * x.parts.1 := rfl
  have hexponent : x.interval.exponent = x.parts.2 - 2 := rfl
  rw [hupper, hmiddle, hexponent, hexp, value, unit]
  push_cast
  constructor <;> ring

/-- The shortest decimal of a number is at most half a unit above it, and its digits fit a word.
Without digits it is the plain zero. -/
theorem shortest_bounds (x : Binary64) (hx : x.isZero = false) :
    x.shortest.value ≤ x.value + x.unit / 2 ∧ x.shortest.digits < 2 * 10 ^ 18 ∧
      (x.shortest.digits = 0 → x.shortest = ⟨0, 0⟩) := by
  have hm := x.parts_pos hx
  have hunit : 0 < x.unit := by
    unfold unit
    positivity
  obtain ⟨hupper, hmiddle⟩ := interval_eq x
  have hwhole : x.unit ≤ x.value := by
    have : (1 : ℚ) ≤ x.parts.1 := by exact_mod_cast hm
    exact le_mul_of_one_le_left hunit.le this
  have hs := scaled_eq x.interval.middle x.interval.exponent
  have hb := scaled_snd_pos x.interval.middle x.interval.exponent
  have hbq : (0 : ℚ) < (scaled x.interval.middle x.interval.exponent).2 := by exact_mod_cast hb
  have ha : 0 < (scaled x.interval.middle x.interval.exponent).1 := by
    have : (0 : ℚ) < (scaled x.interval.middle x.interval.exponent).1 := by
      rw [hs, hmiddle]
      exact mul_pos (by linarith) hbq
    exact_mod_cast this
  -- the grids begin at the leading digit and become finer by one digit at each step
  let top := floorLog10 (scaled x.interval.middle x.interval.exponent).1
    (scaled x.interval.middle x.interval.exponent).2
  have htop : x.value < 10 ^ (top + 1) := by
    have hlt := lt_floorLog10 _ _ ha hb
    rwa [hs, mul_div_cancel_right₀ _ hbq.ne', hmiddle] at hlt
  have hshortest : x.shortest = x.interval.search top 0 18 := rfl
  rw [hshortest]
  rcases search_onGrid? x.interval top 0 18 with hnone | ⟨j, hj, k, hk, hfound⟩
  · rw [hnone]
    refine ⟨?_, by norm_num, fun _ => rfl⟩
    simp only [Decimal.value, Nat.cast_zero, zero_mul]
    linarith
  · rw [hfound]
    obtain ⟨hpos, hle⟩ := onGrid?_le _ _ _ hk
    rw [hupper] at hle
    refine ⟨hle, ?_, fun h => absurd h hpos.ne'⟩
    have hgrid : (0 : ℚ) < 10 ^ (top - (j : Int)) := by positivity
    have hlt : (k : ℚ) * 10 ^ (top - (j : Int)) < 2 * 10 ^ (j + 1) * 10 ^ (top - (j : Int)) := by
      calc (k : ℚ) * 10 ^ (top - (j : Int)) < 2 * 10 ^ (top + 1) := by linarith
        _ = 2 * 10 ^ (j + 1) * 10 ^ (top - (j : Int)) := by
          rw [mul_assoc, ← zpow_natCast, ← zpow_add₀ (by norm_num)]
          congr 2
          push_cast
          ring
    have hdigits : (k : ℚ) < 2 * 10 ^ (j + 1) := lt_of_mul_lt_mul_right hlt hgrid.le
    have hpow : 10 ^ (j + 1) ≤ 10 ^ 18 := Nat.pow_le_pow_right (by decide) (by omega)
    have : k < 2 * 10 ^ (j + 1) := by exact_mod_cast hdigits
    dsimp only
    omega

theorem value_add_half_eq (x : Binary64) :
    x.value + x.unit / 2 = (x.parts.1 + 1 / 2) * x.unit := by
  rw [value, unit]
  ring

theorem value_add_half_le_limit (x : Binary64) : x.value + x.unit / 2 ≤ limit := by
  have hm : (x.parts.1 : ℚ) + 1 ≤ 2 ^ 53 := by exact_mod_cast x.parts_fst_lt
  have hq : x.parts.2 ≤ 971 := x.parts_snd_le 2046 (by decide) x.field_le
  rw [value_add_half_eq]
  exact mul_le_mul (by linarith) (zpow_le_zpow_right₀ (by norm_num) hq)
    (zpow_nonneg (by norm_num) _) (by norm_num)

/-- Below the three greatest numbers, half a unit leads no further than three and a half units
below `2 ^ 1024`. -/
theorem value_add_half_le (x : Binary64) (hx : x.bits.val + 3 < patterns) :
    x.value + x.unit / 2 ≤ (2 ^ 53 - 7 / 2) * topUnit := by
  have hpos : 0 < fractions := by decide
  have hdiv := Nat.div_add_mod x.bits.val fractions
  have hfraction : x.bits.val % fractions < fractions := Nat.mod_lt _ hpos
  have hunit : 0 < x.unit := by
    unfold unit
    positivity
  have htop := topUnit_pos
  rw [value_add_half_eq]
  rcases Nat.lt_or_ge (x.bits.val / fractions) 2046 with hlow | hhigh
  · have hhalf : x.unit ≤ topUnit / 2 := by
      have h970 : topUnit / 2 = 2 ^ (970 : Int) := by
        rw [topUnit, div_eq_iff (by norm_num), ← zpow_add_one₀ (by norm_num)]
        norm_num
      rw [h970]
      exact zpow_le_zpow_right₀ (by norm_num) (x.parts_snd_le 2045 (by decide) (by omega))
    have hm : (x.parts.1 : ℚ) + 1 ≤ 2 ^ 53 := by exact_mod_cast x.parts_fst_lt
    calc (x.parts.1 + 1 / 2) * x.unit ≤ 2 ^ 53 * (topUnit / 2) :=
          mul_le_mul (by linarith) hhalf hunit.le (by norm_num)
      _ ≤ (2 ^ 53 - 7 / 2) * topUnit := by linarith
  · have hfield : x.bits.val / fractions = 2046 := le_antisymm x.field_le hhigh
    have hparts : x.parts = (fractions + x.bits.val % fractions, 971) := by
      unfold parts
      dsimp only
      rw [hfield]
      rfl
    have hm : (x.parts.1 : ℚ) + 4 ≤ 2 ^ 53 := by
      have : x.parts.1 + 4 ≤ 2 ^ 53 := by
        rw [hparts]
        rw [hfield] at hdiv
        simp only [fractions, patterns] at hdiv hx ⊢
        omega
      exact_mod_cast this
    have hu : x.unit = topUnit := by
      rw [unit, hparts]
      rfl
    rw [hu]
    exact mul_le_mul_of_nonneg_right (by linarith) htop.le

end EchoServer.Binary64
