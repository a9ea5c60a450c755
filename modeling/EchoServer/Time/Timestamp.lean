import EchoServer.Time.Calendar

/-! Points in time, in UTC with nanosecond precision. A leap second shares the second count of the
second before it, and has between one and two thousand million nanoseconds. -/
namespace EchoServer.Time

def nanosPerSecond : Nat := 1000000000

/-- The first second of the calendar, 1 January of year -262143. -/
def minSeconds : Int := -8334601228800

/-- The last second of the calendar, 31 December of year 262142. -/
def maxSeconds : Int := 8210266876799

/-- A point in time within the calendar. -/
structure Timestamp where
  /-- Seconds from 1 January 1970. -/
  seconds : Int
  /-- Nanoseconds in that second. -/
  nanos : Nat
  seconds_mem : minSeconds ≤ seconds ∧ seconds ≤ maxSeconds
  nanos_lt : nanos < 2 * nanosPerSecond
  leap : nanosPerSecond ≤ nanos → seconds % 60 = 59
  deriving DecidableEq

namespace Timestamp

/-- The point `nanos` nanoseconds after second `seconds`, if the calendar has it. -/
def ofParts? (seconds : Int) (nanos : Nat) : Option Timestamp :=
  if h : (minSeconds ≤ seconds ∧ seconds ≤ maxSeconds) ∧ nanos < 2 * nanosPerSecond ∧
      (nanosPerSecond ≤ nanos → seconds % 60 = 59) then
    some ⟨seconds, nanos, h.1, h.2.1, h.2.2⟩
  else none

/-- Whether `t` falls into a leap second. -/
def IsLeap (t : Timestamp) : Prop := nanosPerSecond ≤ t.nanos

/-- `t ≤ u`: `t` is not after `u`. -/
protected def Le (t u : Timestamp) : Prop :=
  t.seconds < u.seconds ∨ t.seconds = u.seconds ∧ t.nanos ≤ u.nanos

instance : LE Timestamp := ⟨Timestamp.Le⟩

instance (t u : Timestamp) : Decidable (t ≤ u) :=
  inferInstanceAs (Decidable (_ ∨ _))

/-- The nanoseconds from 1 January 1970 to `t`. -/
def toNanos (t : Timestamp) : Int := t.seconds * nanosPerSecond + t.nanos

/-- The point `n` nanoseconds after 1 January 1970, if the calendar has it. -/
def ofNanos? (n : Int) : Option Timestamp :=
  ofParts? (n / nanosPerSecond) (n % nanosPerSecond).toNat

/-- The point `n` nanoseconds after `t`, if the calendar has it. A leap second counts only for what
stays with the seconds of its minute, and on the way back. -/
def add? (t : Timestamp) (n : Int) : Option Timestamp :=
  if nanosPerSecond ≤ t.nanos then
    if nanosPerSecond ≤ n ∨ 2 * nanosPerSecond ≤ t.nanos + n then
      ofNanos? (t.toNanos - nanosPerSecond + n)
    else if n ≤ -nanosPerSecond then ofNanos? (t.toNanos + n)
    else ofParts? t.seconds (t.nanos + n).toNat
  else ofNanos? (t.toNanos + n)

theorem ofParts?_self (t : Timestamp) : ofParts? t.seconds t.nanos = some t := by
  simp only [ofParts?, t.seconds_mem, t.nanos_lt, and_self, true_and]
  exact dif_pos t.leap

/-- Outside leap seconds the order is that of the nanosecond counts. -/
theorem le_iff_toNanos_le {t u : Timestamp} (ht : ¬ t.IsLeap) (hu : ¬ u.IsLeap) :
    t ≤ u ↔ t.toNanos ≤ u.toNanos := by
  have h : t ≤ u ↔ t.seconds < u.seconds ∨ t.seconds = u.seconds ∧ t.nanos ≤ u.nanos := Iff.rfl
  simp only [IsLeap, nanosPerSecond] at ht hu
  simp only [h, toNanos, nanosPerSecond]
  omega

end Timestamp
end EchoServer.Time
