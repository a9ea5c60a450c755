import EchoServer.Proofs.Message.Duration
import EchoServer.Proofs.Operation.LifeCycle

namespace EchoServer

open Time (Timestamp nanosPerSecond minSeconds maxSeconds)

namespace Time.Timestamp

/-- The moment `n` nanoseconds after `t`, as a second and the nanoseconds in it, whether or not the
calendar has it. What leads out of a leap second counts it only on the way back. -/
def moment (t : Timestamp) (n : Int) : Int × Int :=
  if t.nanos < nanosPerSecond ∨ n ≤ -nanosPerSecond then
    ((t.toNanos + n) / nanosPerSecond, (t.toNanos + n) % nanosPerSecond)
  else if t.nanos + n < 2 * nanosPerSecond then (t.seconds, t.nanos + n)
  else
    ((t.toNanos - nanosPerSecond + n) / nanosPerSecond,
      (t.toNanos - nanosPerSecond + n) % nanosPerSecond)

/-- The calendar has the moment `n` nanoseconds after `t`. -/
def Reaches (t : Timestamp) (n : Int) : Prop :=
  minSeconds ≤ (t.moment n).1 ∧ (t.moment n).1 ≤ maxSeconds

instance (t : Timestamp) (n : Int) : Decidable (t.Reaches n) :=
  inferInstanceAs (Decidable (_ ∧ _))

/-- A moment is `n` nanoseconds further, or within the leap second of `t`, or behind it. -/
theorem moment_cases (t : Timestamp) (n : Int) :
    (0 ≤ (t.moment n).2 ∧ (t.moment n).2 < 1000000000 ∧
      (t.moment n).1 * 1000000000 + (t.moment n).2 = t.toNanos + n ∧
      (t.nanos < 1000000000 ∨ n ≤ -1000000000)) ∨
    ((t.moment n).1 = t.seconds ∧ (t.moment n).2 = t.nanos + n ∧
      1000000000 ≤ t.nanos ∧ -1000000000 < n ∧ t.nanos + n < 2000000000) ∨
    (0 ≤ (t.moment n).2 ∧ (t.moment n).2 < 1000000000 ∧
      (t.moment n).1 * 1000000000 + (t.moment n).2 = t.toNanos - 1000000000 + n ∧
      1000000000 ≤ t.nanos ∧ 2000000000 ≤ t.nanos + n) := by
  by_cases hcount : t.nanos < nanosPerSecond ∨ n ≤ -nanosPerSecond
  · left
    rw [moment, if_pos hcount]
    simp only [nanosPerSecond] at hcount ⊢
    omega
  · right
    by_cases hleap : t.nanos + n < 2 * nanosPerSecond
    · left
      rw [moment, if_neg hcount, if_pos hleap]
      simp only [nanosPerSecond] at hcount hleap
      refine ⟨rfl, rfl, ?_⟩
      omega
    · right
      rw [moment, if_neg hcount, if_neg hleap]
      simp only [nanosPerSecond] at hcount hleap ⊢
      omega

/-- Moments are ordered as their distances. -/
theorem moment_le_moment_iff (t : Timestamp) (m n : Int) :
    (t.moment m).1 < (t.moment n).1 ∨
      (t.moment m).1 = (t.moment n).1 ∧ (t.moment m).2 ≤ (t.moment n).2 ↔ m ≤ n := by
  have hlt : t.nanos < 2000000000 := t.nanos_lt
  have hm := t.moment_cases m
  have hn := t.moment_cases n
  simp only [toNanos, nanosPerSecond] at hm hn
  omega

/-- What is added leads to the moment, if the calendar has it. -/
theorem add?_eq_ofParts? (t : Timestamp) (n : Int) :
    t.add? n = ofParts? (t.moment n).1 (t.moment n).2.toNat := by
  have hunit : (nanosPerSecond : Int) = 1000000000 := rfl
  have hlt : t.nanos < 2000000000 := t.nanos_lt
  by_cases hcount : t.nanos < nanosPerSecond ∨ n ≤ -nanosPerSecond
  · have hadd : t.add? n = ofNanos? (t.toNanos + n) := by
      unfold add?
      split
      · rw [if_neg (by omega), if_pos (by omega)]
      · rfl
    rw [hadd, moment, if_pos hcount]
    rfl
  · have hleap : nanosPerSecond ≤ t.nanos := by omega
    by_cases hwithin : t.nanos + n < 2 * nanosPerSecond
    · rw [add?, if_pos hleap, if_neg (by omega), if_neg (by omega), moment, if_neg hcount,
        if_pos hwithin]
    · rw [add?, if_pos hleap, if_pos (by omega), moment, if_neg hcount, if_neg hwithin]
      rfl

theorem ofParts?_eq_some_iff (seconds : Int) (nanos : Nat) (t : Timestamp) :
    ofParts? seconds nanos = some t ↔ t.seconds = seconds ∧ t.nanos = nanos := by
  constructor
  · exact ofParts?_eq_some
  · rintro ⟨rfl, rfl⟩
    exact ofParts?_self t

theorem add?_eq_some_iff (t u : Timestamp) (n : Int) :
    t.add? n = some u ↔ u.seconds = (t.moment n).1 ∧ (u.nanos : Int) = (t.moment n).2 := by
  have hcases := t.moment_cases n
  rw [add?_eq_ofParts?, ofParts?_eq_some_iff]
  omega

theorem reaches_iff (t : Timestamp) (n : Int) : t.Reaches n ↔ ∃ u, t.add? n = some u := by
  have hcases := t.moment_cases n
  have hleap := t.leap
  constructor
  · intro h
    have hparts : (minSeconds ≤ (t.moment n).1 ∧ (t.moment n).1 ≤ maxSeconds) ∧
        (t.moment n).2.toNat < 2 * nanosPerSecond ∧
        (nanosPerSecond ≤ (t.moment n).2.toNat → (t.moment n).1 % 60 = 59) := by
      simp only [nanosPerSecond] at hleap ⊢
      refine ⟨h, ?_, ?_⟩
      · omega
      · omega
    rw [add?_eq_ofParts?, ofParts?, dif_pos hparts]
    exact ⟨_, rfl⟩
  · intro h
    obtain ⟨u, hu⟩ := h
    obtain ⟨hseconds, -⟩ := (add?_eq_some_iff t u n).mp hu
    have hmem := u.seconds_mem
    rw [hseconds] at hmem
    exact hmem

theorem add?_eq_none_iff (t : Timestamp) (n : Int) : t.add? n = none ↔ ¬ t.Reaches n := by
  rw [reaches_iff, not_exists]
  exact Option.eq_none_iff_forall_ne_some

/-- What is added more leads further, and the other way round. -/
theorem add?_le_add?_iff {t u v : Timestamp} {m n : Int} (hu : t.add? m = some u)
    (hv : t.add? n = some v) : u ≤ v ↔ m ≤ n := by
  obtain ⟨hus, hun⟩ := (add?_eq_some_iff t u m).mp hu
  obtain ⟨hvs, hvn⟩ := (add?_eq_some_iff t v n).mp hv
  rw [← moment_le_moment_iff t m n, ← hus, ← hun, ← hvs, ← hvn, Int.ofNat_le]
  exact Iff.rfl

theorem add?_zero (t : Timestamp) : t.add? 0 = some t := by
  have hcases := t.moment_cases 0
  have hlt : t.nanos < 2000000000 := t.nanos_lt
  rw [add?_eq_some_iff]
  simp only [toNanos, nanosPerSecond] at hcases
  omega

/-- Outside of leap seconds, the calendar has what lies between its ends. -/
theorem reaches_iff_of_not_isLeap {t : Timestamp} (ht : ¬ t.IsLeap) (n : Int) :
    t.Reaches n ↔ minSeconds * nanosPerSecond ≤ t.toNanos + n ∧
      t.toNanos + n < (maxSeconds + 1) * nanosPerSecond := by
  have hcases := t.moment_cases n
  simp only [IsLeap, nanosPerSecond] at ht
  simp only [Reaches, nanosPerSecond]
  omega

end Time.Timestamp

/-- The request leaves the end of its operation to a time to live. -/
structure WaitRequest.EndsAfter (r : WaitRequest) (ttl : Duration) : Prop where
  endTime : r.endTime = none
  ttl : r.ttl = some ttl

section
variable {now : Timestamp} {r r' : WaitRequest} {ttl ttl' : Duration}

/-- A total that makes no span leads out of the calendar, from wherever. -/
theorem not_reaches_of_toSpan? (now : Timestamp) (h : ttl.toSpan? = none) :
    ¬ now.Reaches ttl.total := by
  have hlow : -2147483648 ≤ ttl.nanos.toInt := ttl.nanos.le_toInt
  have hhigh : ttl.nanos.toInt < 2147483648 := ttl.nanos.toInt_lt
  have hfar : ttl.total < -9223372036854000000000000 ∨ 9223372036854000000000000 < ttl.total := by
    rcases (Duration.toSpan?_eq_none_iff ttl).mp h with hlong | ⟨hmany, -⟩
    · simp only [Duration.IsSpan, Duration.maxSpan] at hlong
      omega
    · simp only [Duration.maxSpanSeconds] at hmany
      simp only [Duration.total]
      omega
  -- the calendar is far shorter than the longest span
  have hcases := now.moment_cases ttl.total
  have hmem := now.seconds_mem
  have hlt : now.nanos < 2000000000 := now.nanos_lt
  simp only [Timestamp.toNanos, minSeconds, maxSeconds, nanosPerSecond] at hcases hmem
  simp only [Timestamp.Reaches, minSeconds, maxSeconds]
  omega

namespace WaitRequest.EndsAfter

/-- Both ways out of the range of a time to live come to one: the calendar. -/
theorem doneAt_eq (h : r.EndsAfter ttl) (now : Timestamp) :
    r.doneAt now = (now.add? ttl.total).getD now := by
  rw [WaitRequest.doneAt, h.endTime, h.ttl]
  dsimp only
  rw [Option.bind_some]
  cases hspan : ttl.toSpan? with
  | some n =>
    obtain ⟨rfl, -, -⟩ := (Duration.toSpan?_eq_some_iff ttl n).mp hspan
    rfl
  | none =>
    have hnone : now.add? ttl.total = none := by
      apply (Timestamp.add?_eq_none_iff now _).mpr
      exact not_reaches_of_toSpan? now hspan
    rw [hnone]
    rfl

theorem add?_eq_doneAt (h : r.EndsAfter ttl) (hreach : now.Reaches ttl.total) :
    now.add? ttl.total = some (r.doneAt now) := by
  obtain ⟨u, hu⟩ := (Timestamp.reaches_iff now _).mp hreach
  rw [h.doneAt_eq, hu]
  rfl

theorem doneAt_eq_now (h : r.EndsAfter ttl) (hreach : ¬ now.Reaches ttl.total) :
    r.doneAt now = now := by
  have hnone : now.add? ttl.total = none := (Timestamp.add?_eq_none_iff now _).mpr hreach
  rw [h.doneAt_eq, hnone]
  rfl

/-- Only a time to live that is positive and stays within the calendar ends later than now. -/
theorem doneAt_le_now_iff (h : r.EndsAfter ttl) :
    r.doneAt now ≤ now ↔ ttl.total ≤ 0 ∨ ¬ now.Reaches ttl.total := by
  by_cases hreach : now.Reaches ttl.total
  · rw [Timestamp.add?_le_add?_iff (h.add?_eq_doneAt hreach) now.add?_zero]
    simp [hreach]
  · rw [h.doneAt_eq_now hreach]
    simp [hreach, Timestamp.le_refl]

theorem now_le_doneAt_iff (h : r.EndsAfter ttl) :
    now ≤ r.doneAt now ↔ 0 ≤ ttl.total ∨ ¬ now.Reaches ttl.total := by
  by_cases hreach : now.Reaches ttl.total
  · rw [Timestamp.add?_le_add?_iff now.add?_zero (h.add?_eq_doneAt hreach)]
    simp [hreach]
  · rw [h.doneAt_eq_now hreach]
    simp [hreach, Timestamp.le_refl]

/-- One of two times to live that leads out of the calendar is compared as no time at all. -/
theorem doneAt_le_doneAt_iff (h : r.EndsAfter ttl) (h' : r'.EndsAfter ttl')
    (hle : ttl.total ≤ ttl'.total) :
    r.doneAt now ≤ r'.doneAt now ↔
      ¬ (0 < ttl.total ∧ now.Reaches ttl.total ∧ ¬ now.Reaches ttl'.total) ∧
      ¬ (ttl'.total < 0 ∧ ¬ now.Reaches ttl.total ∧ now.Reaches ttl'.total) := by
  by_cases hreach : now.Reaches ttl.total
  · by_cases hreach' : now.Reaches ttl'.total
    · rw [Timestamp.add?_le_add?_iff (h.add?_eq_doneAt hreach) (h'.add?_eq_doneAt hreach')]
      simp [hreach, hreach', hle]
    · rw [h'.doneAt_eq_now hreach', h.doneAt_le_now_iff]
      simp [hreach, hreach']
  · rw [h.doneAt_eq_now hreach, h'.now_le_doneAt_iff]
    simp only [hreach, not_false_eq_true, false_and, and_false, true_and]
    by_cases hreach' : now.Reaches ttl'.total
    · simp [hreach']
    · simp [hreach']

end WaitRequest.EndsAfter
end

/-- An operation ends that much after the clock reading, if the calendar has the moment, and at the
clock reading itself if not. So the longer time to live ends earlier only by leading out of it. -/
theorem longer_ttl_ends_no_earlier_iff (now : Timestamp) (registry registry' : Registry)
    (r r' : WaitRequest) (ttl ttl' : Duration) (h : r.EndsAfter ttl) (h' : r'.EndsAfter ttl') :
    ((now.Reaches ttl.total →
        (registry.wait r now).1.endTime.seconds = (now.moment ttl.total).1 ∧
          ((registry.wait r now).1.endTime.nanos : Int) = (now.moment ttl.total).2) ∧
      (¬ now.Reaches ttl.total → (registry.wait r now).1.endTime = now)) ∧
    (ttl.total ≤ ttl'.total →
      ((registry.wait r now).1.endTime ≤ (registry'.wait r' now).1.endTime ↔
        ¬ (0 < ttl.total ∧ now.Reaches ttl.total ∧ ¬ now.Reaches ttl'.total) ∧
        ¬ (ttl'.total < 0 ∧ ¬ now.Reaches ttl.total ∧ now.Reaches ttl'.total))) ∧
    ((registry.wait r now).1.done = false ↔ 0 < ttl.total ∧ now.Reaches ttl.total) ∧
    (¬ now.IsLeap → ∀ n, now.Reaches n ↔
      minSeconds * nanosPerSecond ≤ now.toNanos + n ∧
        now.toNanos + n < (maxSeconds + 1) * nanosPerSecond) := by
  have hend : (registry.wait r now).1.endTime = r.doneAt now := rfl
  have hend' : (registry'.wait r' now).1.endTime = r'.doneAt now := rfl
  have hdone : (registry.wait r now).1.done = decide (r.doneAt now ≤ now) := rfl
  rw [hend, hend', hdone]
  refine ⟨⟨?_, h.doneAt_eq_now⟩, h.doneAt_le_doneAt_iff h', ?_, Timestamp.reaches_iff_of_not_isLeap⟩
  · intro hreach
    exact (Timestamp.add?_eq_some_iff _ _ _).mp (h.add?_eq_doneAt hreach)
  · rw [decide_eq_false_iff_not, h.doneAt_le_now_iff]
    simp

/-- A request for an operation that is to live for some seconds. -/
def forSeconds (seconds : Int64) : WaitRequest := ⟨none, some ⟨seconds, 0⟩, none, none⟩

/-- The greatest number of seconds leads out of the calendar, so that an operation that is to live
for so long is done at once, and one that is to live for a second is done later. -/
theorem longest_ttl_ends_at_once :
    (¬ ∀ (now : Timestamp) (registry registry' : Registry) (r r' : WaitRequest)
        (ttl ttl' : Duration), r.EndsAfter ttl → r'.EndsAfter ttl' → ttl.total ≤ ttl'.total →
        (registry.wait r now).1.endTime ≤ (registry'.wait r' now).1.endTime) ∧
      ¬ ∀ (now : Timestamp) (registry : Registry) (r : WaitRequest) (ttl : Duration),
        r.EndsAfter ttl → 0 < ttl.total → (registry.wait r now).1.done = false := by
  let epoch : Timestamp := ⟨0, 0, by decide, by decide, by decide⟩
  constructor
  · intro h
    have hle := h epoch .empty .empty (forSeconds 1) (forSeconds Int64.maxValue) ⟨1, 0⟩
      ⟨Int64.maxValue, 0⟩ ⟨rfl, rfl⟩ ⟨rfl, rfl⟩ (by decide)
    exact absurd hle (by decide)
  · intro h
    have hrunning := h epoch .empty (forSeconds Int64.maxValue) ⟨Int64.maxValue, 0⟩ ⟨rfl, rfl⟩
      (by decide)
    exact absurd hrunning (by decide)

/-- A minute and an hour, from a leap second on. -/
theorem longer_ttl_ends_no_earlier_iff_leap_second :
    ∃ now : Timestamp, now.IsLeap ∧ (forSeconds 60).EndsAfter ⟨60, 0⟩ ∧
      (forSeconds 3600).EndsAfter ⟨3600, 0⟩ ∧
      (Registry.empty.wait (forSeconds 60) now).1.endTime ≤
        (Registry.empty.wait (forSeconds 3600) now).1.endTime ∧
      (Registry.empty.wait (forSeconds 60) now).1.done = false := by
  let now : Timestamp := ⟨1483228799, 1500000000, by decide, by decide, by decide⟩
  have hminute : (forSeconds 60).EndsAfter ⟨60, 0⟩ := ⟨rfl, rfl⟩
  have hhour : (forSeconds 3600).EndsAfter ⟨3600, 0⟩ := ⟨rfl, rfl⟩
  obtain ⟨-, horder, hdone, -⟩ :=
    longer_ttl_ends_no_earlier_iff now .empty .empty _ _ _ _ hminute hhour
  have hleap : now.IsLeap := (by decide : nanosPerSecond ≤ 1500000000)
  exact ⟨now, hleap, hminute, hhour, (horder (by decide)).mpr (by decide),
    hdone.mpr (by decide)⟩

end EchoServer
