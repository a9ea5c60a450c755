/-! Years are counted from March, so that the leap day is the last day of its year. The last century
and the last year of a cycle are a day longer, so their quotients are clamped to 3. -/
namespace EchoServer.Time

structure Date where
  year : Int
  month : Nat
  day : Nat
  deriving DecidableEq

namespace Date

/-- Whether `year` has a 29th of February. -/
def isLeapYear (year : Int) : Bool :=
  year % 4 == 0 && (year % 100 != 0 || year % 400 == 0)

def daysInMonth (year : Int) (month : Nat) : Nat :=
  if month = 2 then (if isLeapYear year then 29 else 28)
  else if month = 4 || month = 6 || month = 9 || month = 11 then 30 else 31

/-- Whether the calendar has this date. -/
def IsValid (d : Date) : Prop :=
  1 ≤ d.month ∧ d.month ≤ 12 ∧ 1 ≤ d.day ∧ d.day ≤ daysInMonth d.year d.month

instance (d : Date) : Decidable d.IsValid := inferInstanceAs (Decidable (_ ∧ _))

/-- The number of days from 1 March of year 0 to `d`. -/
def toMarchDays (d : Date) : Int :=
  let y := if d.month ≤ 2 then d.year - 1 else d.year
  let m := (d.month + 9) % 12
  let dayOfYear := (153 * m + 2) / 5 + d.day - 1
  365 * y + y / 4 - y / 100 + y / 400 + dayOfYear

/-- The date `d` days after 1 March of year `y`, for a `d` within that year. -/
def ofYearDay (y : Int) (d : Nat) : Date :=
  let m := (5 * d + 2) / 153
  let month := if m < 10 then m + 3 else m - 9
  { year := if month ≤ 2 then y + 1 else y, month, day := d - (153 * m + 2) / 5 + 1 }

/-- The year and the day of the year, both from 1 March, of the `n`-th day of 400 years. -/
def yearDayOf (n : Nat) : Nat × Nat :=
  let century := min (n / 36524) 3
  let inCentury := n - century * 36524
  let quad := inCentury / 1461
  let inQuad := inCentury % 1461
  let single := min (inQuad / 365) 3
  (100 * century + 4 * quad + single, inQuad - single * 365)

/-- The date `z` days after 1 March of year 0. -/
def ofMarchDays (z : Int) : Date :=
  let yd := yearDayOf (z % 146097).toNat
  ofYearDay (400 * (z / 146097) + yd.1) yd.2

/-- The number of days from 1 March of year 0 to 1 January 1970. -/
def epochShift : Int := 719468

/-- The number of days from 1 January 1970 to `d`. -/
def toDays (d : Date) : Int := d.toMarchDays - epochShift

/-- The date `n` days after 1 January 1970. -/
def ofDays (n : Int) : Date := ofMarchDays (n + epochShift)

/-- A date in its year, counted in days from 1 March. -/
theorem toMarchDays_ofYearDay (y : Int) {d : Nat} (hd : d ≤ 365) :
    (ofYearDay y d).toMarchDays = 365 * y + y / 4 - y / 100 + y / 400 + d := by
  have hm : (5 * d + 2) / 153 ≤ 11 := by omega
  have hw : (153 * ((5 * d + 2) / 153) + 2) / 5 ≤ d := by omega
  simp only [ofYearDay, toMarchDays]
  by_cases h10 : (5 * d + 2) / 153 < 10
  · have h2 : ¬ (5 * d + 2) / 153 + 3 ≤ 2 := by omega
    have h12 : ((5 * d + 2) / 153 + 3 + 9) % 12 = (5 * d + 2) / 153 := by omega
    simp only [h10, if_true, h2, if_false, h12]
    omega
  · have h2 : (5 * d + 2) / 153 - 9 ≤ 2 := by omega
    have h12 : ((5 * d + 2) / 153 - 9 + 9) % 12 = (5 * d + 2) / 153 := by omega
    simp only [h10, h2, if_true, if_false, h12, Int.add_sub_cancel]
    omega

/-- The days before a year of a cycle and the day in that year add up. -/
theorem yearDayOf_days {n : Nat} (hn : n < 146097) :
    (yearDayOf n).2 ≤ 365 ∧ (yearDayOf n).1 < 400 ∧
      365 * (yearDayOf n).1 + (yearDayOf n).1 / 4 - (yearDayOf n).1 / 100 + (yearDayOf n).2 = n := by
  simp only [yearDayOf]
  obtain ⟨c, hc⟩ : ∃ c, min (n / 36524) 3 = c := ⟨_, rfl⟩
  rw [hc]
  obtain ⟨i, hi⟩ : ∃ i, n - c * 36524 = i := ⟨_, rfl⟩
  rw [hi]
  obtain ⟨s, hs⟩ : ∃ s, min (i % 1461 / 365) 3 = s := ⟨_, rfl⟩
  rw [hs]
  have hi1 : i ≤ 36524 := by omega
  have hi2 : n = c * 36524 + i := by omega
  have hc3 : c ≤ 3 := by omega
  have hs3 : s ≤ 3 := by omega
  clear hc hi
  have hq : i / 1461 ≤ 24 := by omega
  have h4 : (100 * c + 4 * (i / 1461) + s) / 4 = 25 * c + i / 1461 := by omega
  have h100 : (100 * c + 4 * (i / 1461) + s) / 100 = c := by omega
  rw [h4, h100]
  omega

/-- A day number is that of its date. -/
theorem toMarchDays_ofMarchDays (z : Int) : (ofMarchDays z).toMarchDays = z := by
  have hz : 146097 * (z / 146097) + z % 146097 = z := by omega
  have hr : 0 ≤ z % 146097 ∧ z % 146097 < 146097 := by omega
  obtain ⟨hd, hy, hn⟩ := yearDayOf_days (n := (z % 146097).toNat) (by omega)
  simp only [ofMarchDays, toMarchDays_ofYearDay _ hd]
  generalize yearDayOf (z % 146097).toNat = yd at *
  generalize z / 146097 = e, z % 146097 = r at *
  have h4 : (400 * e + yd.1) / 4 = 100 * e + yd.1 / 4 := by omega
  have h100 : (400 * e + yd.1) / 100 = 4 * e + yd.1 / 100 := by omega
  have h400 : (400 * e + yd.1) / 400 = e := by omega
  rw [h4, h100, h400]
  omega

theorem toDays_ofDays (n : Int) : (ofDays n).toDays = n := by
  simp only [ofDays, toDays, toMarchDays_ofMarchDays, Int.add_sub_cancel]

end Date
end EchoServer.Time
