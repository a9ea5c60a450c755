import EchoServer.Message.Duration
import EchoServer.Proofs.Word

namespace EchoServer

/-- The number of nanoseconds lies within the longest span in either direction. -/
def Duration.IsSpan (n : Int) : Prop := -maxSpan ≤ n ∧ n ≤ maxSpan

instance (n : Int) : Decidable (Duration.IsSpan n) := inferInstanceAs (Decidable (_ ∧ _))

/-- A span of time as it is kept: whole seconds, rounded down, and the nanoseconds behind them. -/
structure SplitSpan where
  seconds : Int
  nanos : Int
  deriving DecidableEq

namespace SplitSpan

open Duration (IsSpan maxSpan maxSpanSeconds spanOfSeconds?)

/-- A number of nanoseconds, split. -/
def ofNanos (n : Int) : SplitSpan := ⟨n / 1000000000, n % 1000000000⟩

/-- The longest span, `2 ^ 63 - 1` milliseconds. -/
def greatest : SplitSpan := ⟨9223372036854775, 807000000⟩

/-- The longest span backwards. -/
def least : SplitSpan := ⟨-9223372036854776, 193000000⟩

/-- The span of these two words, if spans reach so far. -/
def ofParts? (seconds nanos : Int) : Option SplitSpan :=
  if seconds < least.seconds ∨ greatest.seconds < seconds ∨ 1000000000 ≤ nanos ∨
      seconds = greatest.seconds ∧ greatest.nanos < nanos ∨
      seconds = least.seconds ∧ nanos < least.nanos then none
  else some ⟨seconds, nanos⟩

/-- The sum of two spans, if spans reach so far; `none` on the outside if a word overflows. -/
def add? (s t : SplitSpan) : Option (Option SplitSpan) := do
  let seconds ← Word.signed? 64 (s.seconds + t.seconds)
  let nanos ← Word.signed? 32 (s.nanos + t.nanos)
  if 1000000000 ≤ nanos then
    let rest ← Word.unsigned? 32 (nanos - 1000000000)
    let carried ← Word.signed? 64 (seconds + 1)
    pure (ofParts? carried rest)
  else
    let rest ← Word.unsigned? 32 nanos
    pure (ofParts? seconds rest)

/-- The parts of a number are a span exactly when the number is one. -/
theorem ofParts?_ofNanos (n : Int) :
    ofParts? (n / 1000000000) (n % 1000000000) = if IsSpan n then some (ofNanos n) else none := by
  have hrange : IsSpan n ↔ ¬ (n / 1000000000 < least.seconds ∨
      greatest.seconds < n / 1000000000 ∨ 1000000000 ≤ n % 1000000000 ∨
      n / 1000000000 = greatest.seconds ∧ greatest.nanos < n % 1000000000 ∨
      n / 1000000000 = least.seconds ∧ n % 1000000000 < least.nanos) := by
    simp only [IsSpan, maxSpan, least, greatest]
    omega
  by_cases h : IsSpan n
  · rw [ofParts?, if_neg (hrange.mp h), if_pos h, ofNanos]
  · rw [ofParts?, if_pos (Decidable.not_not.mp (mt hrange.mpr h)), if_neg h]

/-- Whole seconds are a span exactly when there are not too many of them. -/
theorem ofParts?_zero (seconds : Int) :
    ofParts? seconds 0 = (spanOfSeconds? seconds).map ofNanos := by
  have hparts := ofParts?_ofNanos (seconds * 1000000000)
  have hwhole : seconds * 1000000000 / 1000000000 = seconds := by omega
  have hnone : seconds * 1000000000 % 1000000000 = 0 := by omega
  have hrange : IsSpan (seconds * 1000000000) ↔
      -maxSpanSeconds ≤ seconds ∧ seconds ≤ maxSpanSeconds := by
    simp only [IsSpan, maxSpan, maxSpanSeconds]
    omega
  rw [hwhole, hnone] at hparts
  rw [hparts, spanOfSeconds?]
  simp only [hrange]
  split
  · rfl
  · rfl

/-- Adding the nanoseconds of a word to a span overflows nowhere. -/
theorem add?_ofNanos {m n : Int} (hm : IsSpan m) (hlow : -2147483648 ≤ n) (hhigh : n < 2147483648) :
    (ofNanos m).add? (ofNanos n) =
      some (if IsSpan (m + n) then some (ofNanos (m + n)) else none) := by
  obtain ⟨hmlow, hmhigh⟩ := hm
  simp only [maxSpan] at hmlow hmhigh
  have hseconds : Word.signed? 64 (m / 1000000000 + n / 1000000000) =
      some (m / 1000000000 + n / 1000000000) := by
    apply Word.signed?_of_fits
    · omega
    · omega
  have hnanos : Word.signed? 32 (m % 1000000000 + n % 1000000000) =
      some (m % 1000000000 + n % 1000000000) := by
    apply Word.signed?_of_fits
    · omega
    · omega
  rw [← ofParts?_ofNanos]
  simp only [add?, ofNanos, hseconds, hnanos, Option.bind_eq_bind, Option.bind_some]
  by_cases hcarry : 1000000000 ≤ m % 1000000000 + n % 1000000000
  · -- the nanoseconds make another second
    have hrest : m % 1000000000 + n % 1000000000 - 1000000000 = (m + n) % 1000000000 := by omega
    have hcarried : m / 1000000000 + n / 1000000000 + 1 = (m + n) / 1000000000 := by omega
    have hrestWord : Word.unsigned? 32 ((m + n) % 1000000000) = some ((m + n) % 1000000000) := by
      apply Word.unsigned?_of_fits
      · omega
      · omega
    have hcarriedWord : Word.signed? 64 ((m + n) / 1000000000) = some ((m + n) / 1000000000) := by
      apply Word.signed?_of_fits
      · omega
      · omega
    rw [if_pos hcarry, hrest, hcarried, hrestWord, hcarriedWord]
    rfl
  · have hrest : m % 1000000000 + n % 1000000000 = (m + n) % 1000000000 := by omega
    have hwhole : m / 1000000000 + n / 1000000000 = (m + n) / 1000000000 := by omega
    have hrestWord : Word.unsigned? 32 ((m + n) % 1000000000) = some ((m + n) % 1000000000) := by
      apply Word.unsigned?_of_fits
      · omega
      · omega
    rw [if_neg hcarry, hrest, hwhole, hrestWord]
    rfl

end SplitSpan

namespace Duration

/-- The seconds alone are too many for a span, and the nanoseconds lead the total back. -/
def LedBack (d : Duration) : Prop :=
  ¬ (-maxSpanSeconds ≤ d.seconds.toInt ∧ d.seconds.toInt ≤ maxSpanSeconds) ∧ IsSpan d.total

theorem toSpan?_eq_ite (d : Duration) :
    d.toSpan? = if -maxSpanSeconds ≤ d.seconds.toInt ∧ d.seconds.toInt ≤ maxSpanSeconds then
      (if IsSpan d.total then some d.total else none) else none := by
  unfold toSpan? spanOfSeconds?
  split
  · rfl
  · rfl

theorem toSpan?_eq_some_iff (d : Duration) (n : Int) :
    d.toSpan? = some n ↔ n = d.total ∧ IsSpan d.total ∧ ¬ d.LedBack := by
  rw [toSpan?_eq_ite, LedBack]
  constructor
  · intro h
    split at h
    · rename_i hseconds
      split at h
      · rename_i htotal
        exact ⟨(Option.some.inj h).symm, htotal, fun hback => hback.1 hseconds⟩
      · cases h
    · cases h
  · intro h
    obtain ⟨hn, htotal, hback⟩ := h
    have hseconds : -maxSpanSeconds ≤ d.seconds.toInt ∧ d.seconds.toInt ≤ maxSpanSeconds :=
      Decidable.not_not.mp fun hmany => hback ⟨hmany, htotal⟩
    rw [if_pos hseconds, if_pos htotal, hn]

theorem toSpan?_eq_none_iff (d : Duration) :
    d.toSpan? = none ↔ ¬ IsSpan d.total ∨ d.LedBack := by
  rw [toSpan?_eq_ite, LedBack]
  split
  · rename_i hseconds
    split
    · rename_i htotal
      simp [hseconds, htotal]
    · rename_i htotal
      simp [htotal]
  · rename_i hseconds
    by_cases htotal : IsSpan d.total
    · simp [hseconds, htotal]
    · simp [htotal]

/-- One or two seconds too many can be led back, by that many nanoseconds the other way. -/
theorem ledBack_iff (d : Duration) :
    d.LedBack ↔
      d.seconds.toInt = 9223372036854776 ∧ d.nanos.toInt ≤ -193000000 ∨
      d.seconds.toInt = 9223372036854777 ∧ d.nanos.toInt ≤ -1193000000 ∨
      d.seconds.toInt = -9223372036854776 ∧ 193000000 ≤ d.nanos.toInt ∨
      d.seconds.toInt = -9223372036854777 ∧ 1193000000 ≤ d.nanos.toInt := by
  have hlow : -2147483648 ≤ d.nanos.toInt := d.nanos.le_toInt
  have hhigh : d.nanos.toInt < 2147483648 := d.nanos.toInt_lt
  simp only [LedBack, IsSpan, total, maxSpan, maxSpanSeconds]
  omega

/-- The delay in words; `none` if one of them overflows. -/
def delayInWords? (d : Duration) : Option Nat := do
  let whole ← Word.signed? 128 (d.seconds.toInt * 1000000000)
  let total ← Word.signed? 128 (whole + d.nanos.toInt)
  if total ≤ 0 then pure 0 else pure ((Word.unsigned? 64 total).getD maxDelay).toNat

/-- The span in words; `none` on the outside if one of them overflows. -/
def spanInWords? (d : Duration) : Option (Option SplitSpan) :=
  match SplitSpan.ofParts? d.seconds.toInt 0 with
  | none => some none
  | some whole => whole.add? (SplitSpan.ofNanos d.nanos.toInt)

theorem delayInWords?_eq_some (d : Duration) : delayInWords? d = some d.toDelay := by
  have hslow : -9223372036854775808 ≤ d.seconds.toInt := d.seconds.le_toInt
  have hshigh : d.seconds.toInt < 9223372036854775808 := d.seconds.toInt_lt
  have hnlow : -2147483648 ≤ d.nanos.toInt := d.nanos.le_toInt
  have hnhigh : d.nanos.toInt < 2147483648 := d.nanos.toInt_lt
  have hwhole : Word.signed? 128 (d.seconds.toInt * 1000000000) =
      some (d.seconds.toInt * 1000000000) := by
    apply Word.signed?_of_fits
    · omega
    · omega
  have htotal : Word.signed? 128 (d.seconds.toInt * 1000000000 + d.nanos.toInt) =
      some d.total := by
    apply Word.signed?_of_fits
    · omega
    · omega
  simp only [delayInWords?, hwhole, htotal, Option.bind_eq_bind, Option.bind_some, toDelay,
    maxDelay, Word.unsigned?]
  split
  · have hnone : d.total.toNat = 0 := by omega
    rw [hnone]
    rfl
  · split
    · rename_i hfits
      have hsmall : d.total.toNat ≤ 18446744073709551615 := by omega
      rw [Option.getD_some, Nat.min_eq_left hsmall]
      rfl
    · have hlarge : 18446744073709551615 ≤ d.total.toNat := by omega
      rw [Option.getD_none, Nat.min_eq_right hlarge]
      rfl

theorem spanInWords?_eq_some (d : Duration) :
    spanInWords? d = some (d.toSpan?.map SplitSpan.ofNanos) := by
  rw [toSpan?_eq_ite, spanInWords?, SplitSpan.ofParts?_zero, spanOfSeconds?]
  by_cases hseconds : -maxSpanSeconds ≤ d.seconds.toInt ∧ d.seconds.toInt ≤ maxSpanSeconds
  · have hwhole : IsSpan (d.seconds.toInt * 1000000000) := by
      simp only [maxSpanSeconds] at hseconds
      simp only [IsSpan, maxSpan]
      omega
    have hsum := SplitSpan.add?_ofNanos hwhole d.nanos.le_toInt d.nanos.toInt_lt
    rw [if_pos hseconds, if_pos hseconds, Option.map_some]
    dsimp only
    rw [hsum, total]
    split
    · rfl
    · rfl
  · rw [if_neg hseconds, if_neg hseconds]
    rfl

/-- The delay is the total, clamped to a word of nanoseconds. -/
theorem toDelay_eq_clamp (d : Duration) : (d.toDelay : Int) = max 0 (min d.total (2 ^ 64 - 1)) := by
  simp only [toDelay, maxDelay]
  omega

/-- The delay is the total, clamped to a word of nanoseconds. The span is the total and nothing
else, and there is one if the total is within range, except for the durations that are led back. -/
theorem readings_of_total (d : Duration) :
    (d.toDelay : Int) = max 0 (min d.total (2 ^ 64 - 1)) ∧
    (∀ n, d.toSpan? = some n ↔ n = d.total ∧ IsSpan d.total ∧ ¬ d.LedBack) ∧
    (d.toSpan? = none ↔ ¬ IsSpan d.total ∨ d.LedBack) ∧
    (d.LedBack ↔
      d.seconds.toInt = 9223372036854776 ∧ d.nanos.toInt ≤ -193000000 ∨
      d.seconds.toInt = 9223372036854777 ∧ d.nanos.toInt ≤ -1193000000 ∨
      d.seconds.toInt = -9223372036854776 ∧ 193000000 ≤ d.nanos.toInt ∨
      d.seconds.toInt = -9223372036854777 ∧ 1193000000 ≤ d.nanos.toInt) ∧
    (∀ n, d.toSpan? = some n → (d.toDelay : Int) = max 0 (min n (2 ^ 64 - 1))) ∧
    delayInWords? d = some d.toDelay ∧
    spanInWords? d = some (d.toSpan?.map SplitSpan.ofNanos) := by
  refine ⟨toDelay_eq_clamp d, toSpan?_eq_some_iff d, toSpan?_eq_none_iff d, ledBack_iff d, ?_,
    delayInWords?_eq_some d, spanInWords?_eq_some d⟩
  intro n h
  obtain ⟨rfl, -, -⟩ := (toSpan?_eq_some_iff d n).mp h
  exact toDelay_eq_clamp d

/-- A second too many, led back to the longest span. -/
def ledBack : Duration := ⟨9223372036854776, -193000000⟩

/-- A total within range does not make a span. -/
theorem ledBack_has_no_span :
    ¬ ∀ d : Duration, (∀ n, d.toSpan? = some n ↔ n = d.total ∧ IsSpan d.total) ∧
      (d.toSpan? = none ↔ ¬ IsSpan d.total) := by
  intro h
  have hrange : IsSpan ledBack.total := by decide
  exact ((h ledBack).2.mp (by decide)) hrange

/-- A delay and a span of a second and a half, and of one day into the past. -/
theorem readings_of_total_both_ways :
    (toSpan? ⟨1, 500000000⟩ = some 1500000000 ∧ toDelay ⟨1, 500000000⟩ = 1500000000) ∧
      toSpan? ⟨-86400, 0⟩ = some (-86400000000000) ∧ toDelay ⟨-86400, 0⟩ = 0 := by
  have hforth : toSpan? ⟨1, 500000000⟩ = some 1500000000 := by decide
  have hback : toSpan? ⟨-86400, 0⟩ = some (-86400000000000) := by decide
  obtain ⟨-, -, -, -, hdelay, -, -⟩ := readings_of_total ⟨1, 500000000⟩
  obtain ⟨-, -, -, -, hnone, -, -⟩ := readings_of_total ⟨-86400, 0⟩
  have hlong := hdelay _ hforth
  have hzero := hnone _ hback
  exact ⟨⟨hforth, by omega⟩, hback, by omega⟩

end Duration
end EchoServer
