import EchoServer.Binary64
import Mathlib.Algebra.Order.Field.Power
import Mathlib.Algebra.Order.Ring.Rat
import Mathlib.Tactic.FieldSimp
import Mathlib.Tactic.Linarith
import Mathlib.Tactic.NormNum
import Mathlib.Tactic.Positivity
import Mathlib.Tactic.Ring

namespace EchoServer.Binary64

/-- The magnitude of a number. -/
def value (x : Binary64) : ℚ := x.parts.1 * 2 ^ x.parts.2

theorem value_nonneg (x : Binary64) : 0 ≤ x.value := by
  unfold value
  positivity

theorem scaled_snd_pos (m : Nat) (q : Int) : 0 < (scaled m q).2 := by
  unfold scaled
  split
  · exact Nat.one_pos
  · exact Nat.pow_pos (by decide)

theorem scaled_eq (m : Nat) (q : Int) :
    ((scaled m q).1 : ℚ) = m * 2 ^ q * (scaled m q).2 := by
  unfold scaled
  split
  · rename_i hq
    obtain ⟨n, rfl⟩ := Int.eq_ofNat_of_zero_le hq
    simp
  · rename_i hq
    obtain ⟨n, hn⟩ : ∃ n : Nat, q = -n := ⟨(-q).toNat, by omega⟩
    subst hn
    simp

theorem floorLog_spec (num den : Nat) (hnum : 0 < num) (hden : 0 < den) :
    (2 : ℚ) ^ floorLog num den ≤ num / den ∧ (num : ℚ) / den < 2 ^ (floorLog num den + 1) := by
  have hd : (0 : ℚ) < den := by exact_mod_cast hden
  have hnlow : (2 : ℚ) ^ (num.log2 : Int) ≤ num := by
    exact_mod_cast Nat.log2_self_le hnum.ne'
  have hnhigh : (num : ℚ) < 2 ^ ((num.log2 : Int) + 1) := by
    exact_mod_cast Nat.lt_log2_self
  have hdlow : (2 : ℚ) ^ (den.log2 : Int) ≤ den := by
    exact_mod_cast Nat.log2_self_le hden.ne'
  have hdhigh : (den : ℚ) < 2 ^ ((den.log2 : Int) + 1) := by
    exact_mod_cast Nat.lt_log2_self
  have hhigh : (num : ℚ) / den < 2 ^ ((num.log2 : Int) - den.log2 + 1) := by
    rw [div_lt_iff₀ hd]
    calc (num : ℚ) < 2 ^ ((num.log2 : Int) + 1) := hnhigh
      _ = 2 ^ ((num.log2 : Int) - den.log2 + 1) * 2 ^ (den.log2 : Int) := by
        rw [← zpow_add₀ (by norm_num)]
        congr 1
        ring
      _ ≤ 2 ^ ((num.log2 : Int) - den.log2 + 1) * den := by gcongr
  have hlow : (2 : ℚ) ^ ((num.log2 : Int) - den.log2 - 1) ≤ num / den := by
    rw [le_div_iff₀ hd]
    calc (2 : ℚ) ^ ((num.log2 : Int) - den.log2 - 1) * den
        ≤ 2 ^ ((num.log2 : Int) - den.log2 - 1) * 2 ^ ((den.log2 : Int) + 1) := by gcongr
      _ = 2 ^ (num.log2 : Int) := by
        rw [← zpow_add₀ (by norm_num)]
        congr 1
        ring
      _ ≤ num := hnlow
  have hscaled := scaled_eq den ((num.log2 : Int) - den.log2)
  have hpos : (0 : ℚ) < (scaled den ((num.log2 : Int) - den.log2)).2 := by
    exact_mod_cast scaled_snd_pos _ _
  have hcompare : num * (scaled den ((num.log2 : Int) - den.log2)).2 <
      (scaled den ((num.log2 : Int) - den.log2)).1 ↔
      (num : ℚ) / den < 2 ^ ((num.log2 : Int) - den.log2) := by
    rw [div_lt_iff₀ hd, ← Nat.cast_lt (α := ℚ), hscaled, Nat.cast_mul,
      mul_lt_mul_iff_of_pos_right hpos, mul_comm]
  unfold floorLog
  simp only [hcompare]
  split
  · rename_i hlt
    exact ⟨hlow, by rwa [sub_add_cancel]⟩
  · rename_i hge
    exact ⟨not_lt.mp hge, hhigh⟩

/-- Rounding a quotient to an integer is off by a half at most. -/
theorem roundDiv_spec (num den : Nat) (hden : 0 < den) :
    |(roundDiv num den : ℚ) - num / den| ≤ 1 / 2 := by
  have hd : (0 : ℚ) < den := by exact_mod_cast hden
  have hfrac : (num : ℚ) / den = (num / den : Nat) + (num % den : Nat) / den := by
    rw [div_eq_iff hd.ne', add_mul, div_mul_cancel₀ _ hd.ne', mul_comm]
    exact_mod_cast (Nat.div_add_mod num den).symm
  have hnonneg : (0 : ℚ) ≤ (num % den : Nat) / den := by positivity
  have hlow : 2 * (num % den) ≤ den → (num % den : Nat) / (den : ℚ) ≤ 1 / 2 := by
    intro h
    have hq : (2 : ℚ) * (num % den : Nat) ≤ den := by exact_mod_cast h
    rw [div_le_div_iff₀ hd (by norm_num)]
    linarith
  have hhigh : den ≤ 2 * (num % den) → 1 / 2 ≤ (num % den : Nat) / (den : ℚ) := by
    intro h
    have hq : (den : ℚ) ≤ 2 * (num % den : Nat) := by exact_mod_cast h
    rw [div_le_div_iff₀ (by norm_num) hd]
    linarith
  have hone : (num % den : Nat) / (den : ℚ) ≤ 1 := by
    rw [div_le_one hd]
    exact_mod_cast (Nat.mod_lt _ hden).le
  unfold roundDiv
  dsimp only
  rw [hfrac, abs_le]
  split
  · rename_i hlt
    have := hlow hlt.le
    constructor <;> linarith
  · split
    · rename_i hgt
      have := hhigh hgt.le
      push_cast
      constructor <;> linarith
    -- a tie: the fraction is a half from both sides, and the quotient may grow by one
    · have hl := hlow (by omega)
      have hh := hhigh (by omega)
      have heven : ((num / den % 2 : Nat) : ℚ) = 0 ∨ ((num / den % 2 : Nat) : ℚ) = 1 := by
        exact_mod_cast Nat.mod_two_eq_zero_or_one (num / den)
      rw [Nat.cast_add]
      rcases heven with h | h <;> rw [h] <;> constructor <;> linarith

/-- Rounding to a multiple of `2 ^ q` is off by half of that at most. -/
theorem roundDiv_scaled (num den : Nat) (hden : 0 < den) (q : Int) :
    |(roundDiv (num * (scaled den q).2) (scaled den q).1 : ℚ) * 2 ^ q - num / den| ≤
      2 ^ q / 2 := by
  have hd : (0 : ℚ) < den := by exact_mod_cast hden
  have hunit : (0 : ℚ) < 2 ^ q := by positivity
  have hb : (0 : ℚ) < (scaled den q).2 := by exact_mod_cast scaled_snd_pos den q
  have hscaled := scaled_eq den q
  have ha : 0 < (scaled den q).1 := by
    have : (0 : ℚ) < (scaled den q).1 := by
      rw [hscaled]
      positivity
    exact_mod_cast this
  have hratio : ((num * (scaled den q).2 : Nat) : ℚ) / (scaled den q).1 = num / den / 2 ^ q := by
    rw [hscaled, Nat.cast_mul]
    field_simp
  have hround := roundDiv_spec (num * (scaled den q).2) _ ha
  rw [hratio] at hround
  calc |(roundDiv (num * (scaled den q).2) (scaled den q).1 : ℚ) * 2 ^ q - num / den|
      = |(roundDiv (num * (scaled den q).2) (scaled den q).1 : ℚ) - num / den / 2 ^ q| * 2 ^ q := by
        rw [← abs_of_pos hunit, ← abs_mul, abs_of_pos hunit, sub_mul, div_mul_cancel₀ _ hunit.ne']
    _ ≤ 1 / 2 * 2 ^ q := by gcongr
    _ = 2 ^ q / 2 := by ring

theorem fractions_eq : (fractions : ℚ) = 2 ^ (52 : Int) := by norm_num [fractions]

/-- The magnitude of a pattern: `k` units of the binade `e`, where up to twice the number of
fractions is allowed. -/
theorem value_of_pattern (x : Binary64) (e k : Nat) (hx : x.bits.val = e * fractions + k)
    (hk : k ≤ 2 * fractions) (he : e = 0 ∨ fractions ≤ k) :
    x.value = k * 2 ^ ((e : Int) - 1074) := by
  have hpos : 0 < fractions := by decide
  unfold value parts
  rw [hx]
  rcases Nat.lt_or_ge k fractions with hlt | hge
  · obtain rfl : e = 0 := he.resolve_right (by omega)
    simp [Nat.div_eq_of_lt hlt, Nat.mod_eq_of_lt hlt]
  -- twice the number of fractions is the first number of the next binade, as the pattern says
  · rcases Nat.lt_or_ge k (2 * fractions) with hlt | hge'
    · obtain ⟨j, rfl⟩ : ∃ j, k = fractions + j := ⟨k - fractions, by omega⟩
      have hj : j < fractions := by omega
      have hsplit : e * fractions + (fractions + j) = j + fractions * (e + 1) := by ring
      simp only [hsplit, Nat.add_mul_div_left _ _ hpos, Nat.div_eq_of_lt hj,
        Nat.add_mul_mod_self_left, Nat.mod_eq_of_lt hj]
      rw [if_neg (by omega)]
      push_cast
      congr 2
      ring
    · obtain rfl : k = 2 * fractions := le_antisymm hk hge'
      have hsplit : e * fractions + 2 * fractions = 0 + fractions * (e + 2) := by ring
      simp only [hsplit, Nat.add_mul_div_left _ _ hpos, Nat.zero_div,
        Nat.add_mul_mod_self_left, Nat.zero_mod]
      rw [if_neg (by omega)]
      have hexp : ((0 + (e + 2) : Nat) : Int) - 1075 = ((e : Int) - 1074) + 1 := by
        push_cast
        ring
      rw [hexp, zpow_add_one₀ (by norm_num)]
      push_cast
      ring

/-- The unit of the highest binade. -/
def topUnit : ℚ := 2 ^ (971 : Int)

/-- The greatest magnitude. -/
def greatest : ℚ := (2 ^ 53 - 1) * topUnit

/-- From here on magnitudes are rounded to infinity. -/
def limit : ℚ := (2 ^ 53 - 1 / 2) * topUnit

theorem topUnit_pos : 0 < topUnit := by
  unfold topUnit
  positivity

theorem greatest_lt_limit : greatest < limit :=
  mul_lt_mul_of_pos_right (by norm_num) topUnit_pos

theorem parts_fst_lt (x : Binary64) : x.parts.1 < 2 * fractions := by
  have hfraction : x.bits.val % fractions < fractions := Nat.mod_lt _ (by decide)
  unfold parts
  dsimp only
  split <;> dsimp only <;> omega

theorem parts_snd_le (x : Binary64) (n : Nat) (hn : 0 < n) (h : x.bits.val / fractions ≤ n) :
    x.parts.2 ≤ n - 1075 := by
  unfold parts
  dsimp only
  split <;> dsimp only <;> omega

theorem field_le (x : Binary64) : x.bits.val / fractions ≤ 2046 := by
  have hbits : x.bits.val < fractions * 2047 := by
    rw [mul_comm]
    exact x.bits.isLt
  exact Nat.le_of_lt_succ (Nat.div_lt_of_lt_mul hbits)

theorem value_le (x : Binary64) : x.value ≤ greatest := by
  have hm : (x.parts.1 : ℚ) + 1 ≤ 2 ^ 53 := by exact_mod_cast x.parts_fst_lt
  have hq : x.parts.2 ≤ 971 := x.parts_snd_le 2046 (by decide) x.field_le
  exact mul_le_mul (by linarith) (zpow_le_zpow_right₀ (by norm_num) hq) (by positivity)
    (by norm_num)

/-- What a quotient is rounded to: a number of units of a binade, which is off by half a unit at
most. -/
theorem ofQuotient_eq (num den : Nat) (hnum : 0 < num) (hden : 0 < den) :
    ∃ (e k : Nat), k ≤ 2 * fractions ∧
      (e = 0 ∨ fractions ≤ k ∧ (fractions : ℚ) * 2 ^ ((e : Int) - 1074) ≤ num / den) ∧
      (num : ℚ) / den < 2 * fractions * 2 ^ ((e : Int) - 1074) ∧
      |(k : ℚ) * 2 ^ ((e : Int) - 1074) - num / den| ≤ 2 ^ ((e : Int) - 1074) / 2 ∧
      ofQuotient num den = if h : e * fractions + k < patterns
        then some ⟨false, ⟨e * fractions + k, h⟩⟩ else none := by
  obtain ⟨hlow, hhigh⟩ := floorLog_spec num den hnum hden
  obtain ⟨e, he⟩ : ∃ e : Nat, max (-1074) (floorLog num den - 52) = (e : Int) - 1074 :=
    ⟨(max (-1074) (floorLog num den - 52) + 1074).toNat, by omega⟩
  have hunit : (0 : ℚ) < 2 ^ ((e : Int) - 1074) := by positivity
  have hround := roundDiv_scaled num den hden ((e : Int) - 1074)
  let k := roundDiv (num * (scaled den ((e : Int) - 1074)).2) (scaled den ((e : Int) - 1074)).1
  obtain ⟨hbelow, habove⟩ := abs_le.mp hround
  have htop : (num : ℚ) / den < 2 * fractions * 2 ^ ((e : Int) - 1074) := by
    refine hhigh.trans_le ?_
    rw [fractions_eq, ← zpow_one_add₀ (by norm_num), ← zpow_add₀ (by norm_num)]
    exact zpow_le_zpow_right₀ (by norm_num) (by omega)
  have hk : (k : ℚ) * 2 ^ ((e : Int) - 1074) < (2 * fractions + 1) * 2 ^ ((e : Int) - 1074) := by
    linarith
  refine ⟨e, k, ?_, ?_, htop, hround, ?_⟩
  · have := lt_of_mul_lt_mul_right hk hunit.le
    exact_mod_cast Nat.lt_succ_iff.mp (by exact_mod_cast this)
  · rcases Nat.eq_zero_or_pos e with h0 | hpos
    · exact Or.inl h0
    · right
      have hbase : (fractions : ℚ) * 2 ^ ((e : Int) - 1074) ≤ num / den := by
        refine le_trans ?_ hlow
        rw [fractions_eq, ← zpow_add₀ (by norm_num)]
        exact zpow_le_zpow_right₀ (by norm_num) (by omega)
      refine ⟨?_, hbase⟩
      have hk' : (fractions : ℚ) * 2 ^ ((e : Int) - 1074) < (k + 1) * 2 ^ ((e : Int) - 1074) := by
        linarith
      have := lt_of_mul_lt_mul_right hk' hunit.le
      exact_mod_cast Nat.lt_succ_iff.mp (by exact_mod_cast this)
  · have hq : ((e : Int) - 1074 + 1074).toNat = e := by omega
    simp only [ofQuotient, if_neg hnum.ne', he, hq]
    rfl

/-- A quotient below the limit is rounded to a number. -/
theorem ofQuotient_isSome (num den : Nat) (hden : 0 < den) (h : (num : ℚ) / den < limit) :
    (ofQuotient num den).isSome := by
  rcases Nat.eq_zero_or_pos num with rfl | hnum
  · rfl
  · obtain ⟨e, k, hk, hbase, -, hround, heq⟩ := ofQuotient_eq num den hnum hden
    have hpattern : e * fractions + k < patterns := by
      unfold patterns
      unfold limit at h
      -- below the highest binade all patterns are numbers, in it the limit is what counts
      rcases lt_trichotomy e 2045 with hlt | rfl | hgt
      · simp only [fractions] at hk ⊢
        omega
      · have htop : (2 : ℚ) ^ (((2045 : Nat) : Int) - 1074) = topUnit := rfl
        rw [htop] at hround
        have hk' : (k : ℚ) * topUnit < 2 ^ 53 * topUnit := by
          have habove := (abs_le.mp hround).2
          linarith
        have : k < 2 ^ 53 := by exact_mod_cast lt_of_mul_lt_mul_right hk' topUnit_pos.le
        simp only [fractions]
        omega
      · obtain ⟨-, hv⟩ := hbase.resolve_left (by omega)
        have hpow : 2 * topUnit ≤ 2 ^ ((e : Int) - 1074) := by
          rw [topUnit, ← zpow_one_add₀ (by norm_num)]
          exact zpow_le_zpow_right₀ (by norm_num) (by omega)
        have hbig : (fractions : ℚ) * (2 * topUnit) ≤ num / den := le_trans (by gcongr) hv
        have hpos := topUnit_pos
        norm_num [fractions] at hbig
        linarith
    rw [heq, dif_pos hpattern]
    rfl

/-- A positive integer is rounded to a magnitude of at least one, and in proportion it grows by
half a unit of the binade at most. -/
theorem ofNat_bounds (n : Nat) (hn : 0 < n) (x : Binary64) (h : ofNat n = some x) :
    1 ≤ x.value ∧ x.value ≤ n * (1 + 1 / 2 ^ 53) := by
  obtain ⟨e, k, hk, hbase, htop, hround, heq⟩ := ofQuotient_eq n 1 hn Nat.one_pos
  rw [ofNat, heq] at h
  split at h
  · obtain rfl := Option.some.inj h
    have hvalue := value_of_pattern ⟨false, ⟨e * fractions + k, by assumption⟩⟩ e k rfl hk
      (hbase.imp id And.left)
    rw [hvalue]
    have hone : (1 : ℚ) ≤ n := by exact_mod_cast hn
    rw [Nat.cast_one, div_one] at htop hround hbase
    have hexp : 1022 ≤ (e : Int) := by
      rw [fractions_eq, ← zpow_one_add₀ (by norm_num), ← zpow_add₀ (by norm_num)] at htop
      have := (one_lt_zpow_iff_right₀ (by norm_num)).mp (hone.trans_lt htop)
      omega
    obtain ⟨hlow, hunit⟩ := hbase.resolve_left (by omega)
    have hlowq : (fractions : ℚ) ≤ k := by exact_mod_cast hlow
    constructor
    · calc (1 : ℚ) ≤ 2 ^ ((52 : Int) + ((e : Int) - 1074)) :=
          one_le_zpow₀ (by norm_num) (by omega)
        _ = fractions * 2 ^ ((e : Int) - 1074) := by rw [zpow_add₀ (by norm_num), fractions_eq]
        _ ≤ k * 2 ^ ((e : Int) - 1074) := by gcongr
    · have habove := (abs_le.mp hround).2
      norm_num [fractions] at hunit ⊢
      linarith
  · cases h

theorem mul_isSome (x y : Binary64) (h : x.value * y.value < limit) : (x.mul y).isSome := by
  have hscaled := scaled_eq (x.parts.1 * y.parts.1) (x.parts.2 + y.parts.2)
  have hpos := scaled_snd_pos (x.parts.1 * y.parts.1) (x.parts.2 + y.parts.2)
  have hposq : ((scaled (x.parts.1 * y.parts.1) (x.parts.2 + y.parts.2)).2 : ℚ) ≠ 0 := by
    exact_mod_cast hpos.ne'
  have hmul : x.mul y = ofQuotient (scaled (x.parts.1 * y.parts.1) (x.parts.2 + y.parts.2)).1
      (scaled (x.parts.1 * y.parts.1) (x.parts.2 + y.parts.2)).2 := rfl
  rw [hmul]
  refine ofQuotient_isSome _ _ hpos ?_
  rw [hscaled, mul_div_cancel_right₀ _ hposq, zpow_add₀ (by norm_num)]
  calc ((x.parts.1 * y.parts.1 : Nat) : ℚ) * (2 ^ x.parts.2 * 2 ^ y.parts.2)
      = x.value * y.value := by
        simp only [value, Nat.cast_mul]
        ring
    _ < limit := h

/-- Dividing by one or more leaves a number finite. -/
theorem div_isSome (x y : Binary64) (hy : 1 ≤ y.value) : (x.div y).isSome := by
  have hscaled := scaled_eq x.parts.1 (x.parts.2 - y.parts.2)
  have hpos := scaled_snd_pos x.parts.1 (x.parts.2 - y.parts.2)
  have hposq : (0 : ℚ) < (scaled x.parts.1 (x.parts.2 - y.parts.2)).2 := by exact_mod_cast hpos
  have hm : 0 < y.parts.1 := by
    rcases Nat.eq_zero_or_pos y.parts.1 with h0 | hm
    · simp only [value, h0, Nat.cast_zero, zero_mul] at hy
      norm_num at hy
    · exact hm
  have hmq : (0 : ℚ) < y.parts.1 := by exact_mod_cast hm
  have hdiv : x.div y = ofQuotient (scaled x.parts.1 (x.parts.2 - y.parts.2)).1
      ((scaled x.parts.1 (x.parts.2 - y.parts.2)).2 * y.parts.1) := rfl
  rw [hdiv]
  refine ofQuotient_isSome _ _ (Nat.mul_pos hpos hm) ?_
  rw [hscaled, Nat.cast_mul, zpow_sub₀ (by norm_num)]
  calc (x.parts.1 : ℚ) * (2 ^ x.parts.2 / 2 ^ y.parts.2) *
        (scaled x.parts.1 (x.parts.2 - y.parts.2)).2 /
        ((scaled x.parts.1 (x.parts.2 - y.parts.2)).2 * y.parts.1)
      = x.value / y.value := by
        simp only [value]
        field_simp
    _ ≤ x.value := div_le_self x.value_nonneg hy
    _ ≤ greatest := x.value_le
    _ < limit := greatest_lt_limit

end EchoServer.Binary64
