import EchoServer.Time.Timestamp
import Mathlib.Tactic.IntervalCases

namespace EchoServer.Time.Date

/-- Only the last year of a cycle of four ends with a leap day, and of a century that is the last
one of a cycle of 400 years. -/
theorem yearDayOf_leapDay {n : Nat} (hn : n < 146097) (h : (yearDayOf n).2 = 365) :
    (yearDayOf n).1 % 4 = 3 ∧ ((yearDayOf n).1 % 100 = 99 → (yearDayOf n).1 = 399) := by
  simp only [yearDayOf] at h ⊢
  obtain ⟨c, hc⟩ : ∃ c, min (n / 36524) 3 = c := ⟨_, rfl⟩
  rw [hc] at h ⊢
  obtain ⟨i, hi⟩ : ∃ i, n - c * 36524 = i := ⟨_, rfl⟩
  rw [hi] at h ⊢
  obtain ⟨s, hs⟩ : ∃ s, min (i % 1461 / 365) 3 = s := ⟨_, rfl⟩
  rw [hs] at h ⊢
  have hshort : c < 3 → i < 36524 := by omega
  have hc3 : c ≤ 3 := by omega
  have hi1 : i ≤ 36524 := by omega
  clear hc hi hn
  -- the leap day is the last day of four years
  have hs3 : s = 3 := by omega
  have hlast : i % 1461 = 1460 := by omega
  omega

theorem isLeapYear_iff (year : Int) :
    isLeapYear year = true ↔ year % 4 = 0 ∧ (year % 100 ≠ 0 ∨ year % 400 = 0) := by
  simp [isLeapYear]

/-- The calendar has every day of a year, and the last of 366 days if the year after it, counted
from January, is a leap year. -/
theorem isValid_ofYearDay (y : Int) {d : Nat} (hd : d ≤ 365)
    (hleap : d = 365 → isLeapYear (y + 1) = true) : (ofYearDay y d).IsValid := by
  obtain ⟨m, hm⟩ : ∃ m, (5 * d + 2) / 153 = m := ⟨_, rfl⟩
  have hm11 : m ≤ 11 := by omega
  have hlow : 153 * m ≤ 5 * d + 2 := by omega
  have hhigh : 5 * d + 2 < 153 * m + 153 := by omega
  simp only [IsValid, ofYearDay, hm]
  clear hm
  interval_cases m
  case «11» =>
    simp only [daysInMonth]
    by_cases hlast : d = 365
    · simp [hleap hlast]
      omega
    · simp
      split <;> omega
  all_goals
    simp [daysInMonth]
    omega

theorem isValid_ofDays (n : Int) : (ofDays n).IsValid := by
  obtain ⟨hd, hy, -⟩ := yearDayOf_days (n := ((n + epochShift) % 146097).toNat) (by omega)
  have hleap := yearDayOf_leapDay (n := ((n + epochShift) % 146097).toNat) (by omega)
  rw [ofDays, ofMarchDays]
  refine isValid_ofYearDay _ hd ?_
  intro hlast
  obtain ⟨h4, h100⟩ := hleap hlast
  rw [isLeapYear_iff]
  omega

/-- A day of the calendar lies in one of the years that the calendar spans. -/
theorem year_ofDays {n : Int} (hfirst : -96465292 ≤ n) (hlast : n ≤ 95026236) :
    -262143 ≤ (ofDays n).year ∧ (ofDays n).year ≤ 262142 := by
  have hdays := toMarchDays_ofMarchDays (n + epochShift)
  obtain ⟨hd, -, -⟩ := yearDayOf_days (n := ((n + epochShift) % 146097).toNat) (by omega)
  simp only [ofDays, ofMarchDays, epochShift] at hdays hd ⊢
  generalize 400 * ((n + 719468) / 146097) + ((yearDayOf ((n + 719468) % 146097).toNat).1 : Int) = y
    at hdays ⊢
  generalize (yearDayOf ((n + 719468) % 146097).toNat).2 = d at hdays hd ⊢
  rw [toMarchDays_ofYearDay y hd] at hdays
  -- January and February belong to the next year
  have hyear : (ofYearDay y d).year = if 306 ≤ d then y + 1 else y := by
    simp only [ofYearDay]
    split <;> split <;> omega
  -- beyond its first and its last year, a further year is worth more than the leap days it loses
  have hlow : y ≤ -262144 →
      y / 4 ≤ -65536 ∧ -2622 + (y + 262144) ≤ y / 100 ∧ y / 400 ≤ -656 := by omega
  have hhigh : 262142 ≤ y →
      65535 ≤ y / 4 ∧ y / 100 ≤ 2621 + (y - 262142) ∧ 655 ≤ y / 400 := by omega
  by_cases hnext : 306 ≤ d
  · rw [hyear, if_pos hnext]
    omega
  · rw [hyear, if_neg hnext]
    omega

end EchoServer.Time.Date
