import EchoServer.Proofs.Operation.LifeCycle
import EchoServer.Server.Basic
import Mathlib.Data.List.Basic

namespace EchoServer

open Time (Timestamp nanosPerSecond minSeconds maxSeconds)

namespace Time.Timestamp

section
variable {now e : Timestamp} {n : Int}

/-- A time that is no leap second is not after a moment some time back exactly if so many
nanoseconds lie between, unless the moment is in the leap second that the clock shows. -/
theorem atOrBefore_back_iff (he : ¬ e.IsLeap) (h : ¬ now.IsLeap ∨ nanosPerSecond ≤ n) :
    e.AtOrBefore (now.back n) ↔ e.toNanos + n ≤ now.toNanos := by
  have hback : now.back n =
      ((now.toNanos - n) / nanosPerSecond, (now.toNanos - n) % nanosPerSecond) := by
    rw [back, if_neg]
    simp only [IsLeap] at h
    omega
  rw [hback]
  simp only [IsLeap, nanosPerSecond] at he
  simp only [AtOrBefore, toNanos, nanosPerSecond]
  omega

theorem atOrBefore_back_zero : e.AtOrBefore (now.back 0) ↔ e ≤ now := by
  have hle : e ≤ now ↔ e.AtOrBefore (now.seconds, now.nanos) := by
    simp only [AtOrBefore, Int.ofNat_le]
    exact Iff.rfl
  rw [hle]
  by_cases hnow : now.IsLeap
  · rw [back, if_pos ⟨hnow, by decide⟩, Int.sub_zero]
  · rw [back, if_neg fun h => hnow h.1]
    simp only [IsLeap, nanosPerSecond] at hnow
    simp only [AtOrBefore, toNanos, nanosPerSecond]
    omega

/-- What lies behind in the order lies behind in nanoseconds. -/
theorem toNanos_le_of_le (he : ¬ e.IsLeap) (h : e ≤ now) : e.toNanos ≤ now.toNanos := by
  have horder : e.seconds < now.seconds ∨ e.seconds = now.seconds ∧ e.nanos ≤ now.nanos := h
  simp only [IsLeap, nanosPerSecond] at he
  simp only [toNanos, nanosPerSecond]
  omega

/-- What lies more than a second back is behind in the order, also of a leap second. -/
theorem le_of_toNanos_add_le (h : e.toNanos + nanosPerSecond ≤ now.toNanos) : e ≤ now := by
  have hnow := now.nanos_lt
  show e.seconds < now.seconds ∨ e.seconds = now.seconds ∧ e.nanos ≤ now.nanos
  simp only [toNanos, nanosPerSecond] at h hnow
  omega

end
end Time.Timestamp

namespace Server

/-- What ended at `e` has been kept for `retention` seconds at `now`: it is done, and so many
nanoseconds lie behind its end. -/
def Expired (retention : Nat) (now e : Timestamp) : Prop :=
  e ≤ now ∧ e.toNanos + retention * nanosPerSecond ≤ now.toNanos

instance (retention : Nat) (now e : Timestamp) : Decidable (Expired retention now e) :=
  inferInstanceAs (Decidable (_ ∧ _))

section
variable {retention longer : Nat} {now e : Timestamp}

/-- Unless the clock shows a leap second, the nanoseconds say it all. -/
theorem expired_iff_of_not_isLeap (he : ¬ e.IsLeap) (hnow : ¬ now.IsLeap) :
    Expired retention now e ↔ e.toNanos + retention * nanosPerSecond ≤ now.toNanos := by
  have hle := Timestamp.le_iff_toNanos_le he hnow
  have hunit : (nanosPerSecond : Int) = 1000000000 := rfl
  rw [Expired, hle, hunit]
  omega

/-- What has been kept for longer has been kept for less. -/
theorem Expired.of_longer (h : Expired longer now e) (hle : retention ≤ longer) :
    Expired retention now e := by
  obtain ⟨hdone, hcount⟩ := h
  have hunit : (nanosPerSecond : Int) = 1000000000 := rfl
  rw [hunit] at hcount
  refine ⟨hdone, ?_⟩
  rw [hunit]
  omega

/-- A retention is so many nanoseconds, or it is cut down to the longest span, which is longer than
the calendar. -/
theorem retentionOf_cases (retention : Nat) :
    retentionOf retention = retention * nanosPerSecond ∨
      (retentionOf retention = Duration.maxSpan ∧
        Duration.maxSpan < (retention : Int) * nanosPerSecond + nanosPerSecond) := by
  unfold retentionOf Duration.spanOfSeconds?
  split
  · exact Or.inl rfl
  · rename_i hrange
    refine Or.inr ⟨rfl, ?_⟩
    simp only [Duration.maxSpanSeconds] at hrange
    simp only [Duration.maxSpan, nanosPerSecond]
    omega

theorem retentionOf_nonneg (retention : Nat) : 0 ≤ retentionOf retention := by
  rcases retentionOf_cases retention with h | ⟨h, -⟩
  · simp only [h, nanosPerSecond]
    omega
  · rw [h]
    decide

/-- What ended at or before the moment that lies a retention back has been kept for so long. -/
theorem atOrBefore_back_retentionOf_iff (retention : Nat) (now : Timestamp) (he : ¬ e.IsLeap) :
    e.AtOrBefore (now.back (retentionOf retention)) ↔ Expired retention now e := by
  by_cases hzero : retention = 0
  · have hnone : retentionOf 0 = 0 := rfl
    rw [hzero, hnone, Timestamp.atOrBefore_back_zero]
    refine ⟨fun h => ⟨h, ?_⟩, fun h => h.1⟩
    simpa using Timestamp.toNanos_le_of_le he h
  have hsome : (nanosPerSecond : Int) ≤ retention * nanosPerSecond := by
    simp only [nanosPerSecond]
    omega
  have hdone (h : e.toNanos + retention * nanosPerSecond ≤ now.toNanos) : e ≤ now :=
    Timestamp.le_of_toNanos_add_le (by omega)
  have hexpired : Expired retention now e ↔
      e.toNanos + retention * nanosPerSecond ≤ now.toNanos :=
    ⟨fun h => h.2, fun h => ⟨hdone h, h⟩⟩
  rw [hexpired]
  rcases retentionOf_cases retention with h | ⟨h, hlong⟩
  · rw [h, Timestamp.atOrBefore_back_iff he (Or.inr hsome)]
  · rw [h, Timestamp.atOrBefore_back_iff he (Or.inr (by decide))]
    -- nothing in the calendar lies so far back
    have hfirst := e.seconds_mem.1
    have hlast := now.seconds_mem.2
    have hnanos := now.nanos_lt
    simp only [minSeconds, maxSeconds, nanosPerSecond] at hfirst hlast hnanos
    simp only [Duration.maxSpan, nanosPerSecond] at hlong
    simp only [Timestamp.toNanos, Duration.maxSpan, nanosPerSecond]
    omega

end

/-- A cleanup forgets and counts what ended at or before a moment, and keeps the rest. If the
calendar does not have the moment, nothing ended before it. -/
theorem registry_cleanup_eq (r : Registry) {n : Int} (hn : 0 ≤ n) (now : Timestamp) :
    r.cleanup n now =
      ((r.operations.filter fun p => p.2.endTime.AtOrBefore (now.back n)).length,
        { r with operations :=
            r.operations.filter fun p => ¬ p.2.endTime.AtOrBefore (now.back n) }) := by
  have hmoment (e : Timestamp) := Timestamp.le_add?_neg_iff e now n hn
  unfold Registry.cleanup
  cases hc : now.add? (-n) with
  | none =>
    have hnever (e : Timestamp) : ¬ e.AtOrBefore (now.back n) := by
      rw [← hmoment, hc]
      rintro ⟨c, h, -⟩
      cases h
    simp [hnever]
  | some cutoff =>
    have hcutoff (e : Timestamp) : e.AtOrBefore (now.back n) ↔ e ≤ cutoff := by
      rw [← hmoment, hc]
      exact ⟨fun ⟨c, h, hle⟩ => Option.some.inj h ▸ hle, fun hle => ⟨cutoff, rfl, hle⟩⟩
    have hsplit := List.length_eq_length_filter_add (l := r.operations)
      fun p => decide (p.2.endTime ≤ cutoff)
    simp only [hcutoff, decide_not]
    rw [hsplit, Nat.add_sub_cancel]

section
variable {retention longer : Nat} {now : Timestamp} {r : Registry}

/-- The end of no operation is a leap second. -/
def EndsRegularly (r : Registry) : Prop := ∀ p ∈ r.operations, ¬ p.2.endTime.IsLeap

theorem EndsRegularly.cleanup_eq (h : EndsRegularly r) (retention : Nat) (now : Timestamp) :
    cleanup retention now r =
      ((r.operations.filter fun p => Expired retention now p.2.endTime).length,
        { r with
          operations := r.operations.filter fun p => ¬ Expired retention now p.2.endTime }) := by
  have hiff (p : String × PendingOperation) (hp : p ∈ r.operations) :
      p.2.endTime.AtOrBefore (now.back (retentionOf retention)) ↔
        Expired retention now p.2.endTime :=
    atOrBefore_back_retentionOf_iff retention now (h p hp)
  have hgone : (r.operations.filter fun p =>
      p.2.endTime.AtOrBefore (now.back (retentionOf retention))) =
        r.operations.filter fun p => Expired retention now p.2.endTime :=
    List.filter_congr fun p hp => decide_eq_decide.mpr (hiff p hp)
  have hkept : (r.operations.filter fun p =>
      ¬ p.2.endTime.AtOrBefore (now.back (retentionOf retention))) =
        r.operations.filter fun p => ¬ Expired retention now p.2.endTime :=
    List.filter_congr fun p hp => decide_eq_decide.mpr (not_congr (hiff p hp))
  rw [cleanup, registry_cleanup_eq r (retentionOf_nonneg retention), hgone, hkept]

theorem EndsRegularly.kept (h : EndsRegularly r) (retention : Nat) (now : Timestamp) :
    EndsRegularly (cleanup retention now r).2 := by
  rw [h.cleanup_eq]
  intro p hp
  exact h p (List.mem_of_mem_filter hp)

/-- A longer retention keeps what a shorter one keeps. -/
theorem EndsRegularly.longer_keeps_more (h : EndsRegularly r) (hle : retention ≤ longer) :
    (cleanup retention now r).2.operations.Sublist (cleanup longer now r).2.operations ∧
      (cleanup longer now r).1 ≤ (cleanup retention now r).1 := by
  rw [h.cleanup_eq, h.cleanup_eq]
  constructor
  · apply List.monotone_filter_right
    intro p hp
    simp only [decide_eq_true_eq] at hp ⊢
    exact fun hlong => hp (hlong.of_longer hle)
  · apply List.Sublist.length_le
    apply List.monotone_filter_right
    intro p hp
    simp only [decide_eq_true_eq] at hp ⊢
    exact hp.of_longer hle

/-- What one cleanup keeps, the next one at the same time keeps too. -/
theorem EndsRegularly.cleanup_cleanup (h : EndsRegularly r) (retention : Nat) (now : Timestamp) :
    cleanup retention now (cleanup retention now r).2 = (0, (cleanup retention now r).2) := by
  rw [(h.kept retention now).cleanup_eq, h.cleanup_eq]
  simp [List.filter_filter]

end

/-- A cleanup forgets, and counts, the operations that are done and behind whose end lies the
retention, counted without bounds. At the same time nothing is left for a second one. -/
theorem expired_operations_are_forgotten (retention : Nat) (now : Timestamp) (r : Registry)
    (hends : EndsRegularly r) :
    cleanup retention now r =
      ((r.operations.filter fun p => Expired retention now p.2.endTime).length,
        { r with operations := r.operations.filter fun p => ¬ Expired retention now p.2.endTime }) ∧
    (¬ now.IsLeap → ∀ p ∈ r.operations, Expired retention now p.2.endTime ↔
      p.2.endTime.toNanos + retention * nanosPerSecond ≤ now.toNanos) ∧
    (∀ p ∈ r.operations, (p.2.snapshot p.1 now).done = false →
      p ∈ (cleanup retention now r).2.operations) ∧
    (∀ longer, retention ≤ longer →
      (cleanup retention now r).2.operations.Sublist (cleanup longer now r).2.operations ∧
        (cleanup longer now r).1 ≤ (cleanup retention now r).1) ∧
    cleanup retention now (cleanup retention now r).2 = (0, (cleanup retention now r).2) := by
  refine ⟨hends.cleanup_eq retention now, ?_, ?_, ?_, hends.cleanup_cleanup retention now⟩
  · intro hnow p hp
    exact expired_iff_of_not_isLeap (hends p hp) hnow
  · intro p hp hruns
    have hlater : ¬ p.2.endTime ≤ now := of_decide_eq_false hruns
    rw [hends.cleanup_eq]
    apply List.mem_filter.mpr
    exact ⟨hp, decide_eq_true fun hexpired => hlater hexpired.1⟩
  · intro longer hle
    exact hends.longer_keeps_more hle

/-- Three operations, which end shortly after second 40, a nanosecond later, and after second
200. -/
def threeOperations : List (String × PendingOperation) :=
  [("a", ⟨⟨40, 1, by decide, by decide, by decide⟩, ⟨none, none, none, none⟩⟩),
    ("b", ⟨⟨40, 2, by decide, by decide, by decide⟩, ⟨none, none, none, none⟩⟩),
    ("c", ⟨⟨200, 3, by decide, by decide, by decide⟩, ⟨none, none, none, none⟩⟩)]

/-- A minute after the first of them, a retention of a minute forgets that one, and the longest
forgets none. -/
theorem expired_operations_are_forgotten_minute :
    ∃ now : Timestamp, EndsRegularly ⟨threeOperations, 4⟩ ∧
      cleanup 60 now ⟨threeOperations, 4⟩ = (1, ⟨threeOperations.drop 1, 4⟩) ∧
      cleanup 18446744073709551615 now ⟨threeOperations, 4⟩ = (0, ⟨threeOperations, 4⟩) := by
  let now : Timestamp := ⟨100, 1, by decide, by decide, by decide⟩
  have hends : EndsRegularly ⟨threeOperations, 4⟩ := by
    intro p hp
    simp only [threeOperations, List.mem_cons, List.not_mem_nil, or_false] at hp
    rcases hp with rfl | rfl | rfl
    all_goals
      show ¬ nanosPerSecond ≤ _
      decide
  refine ⟨now, hends, ?_, ?_⟩
  · rw [(expired_operations_are_forgotten 60 now _ hends).1]
    rfl
  · rw [(expired_operations_are_forgotten 18446744073709551615 now _ hends).1]
    rfl

end Server
end EchoServer
