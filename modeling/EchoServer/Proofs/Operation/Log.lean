import EchoServer.Operation.Registry
import Mathlib.Algebra.Group.Nat.Defs
import Mathlib.Data.List.Induction

namespace EchoServer

open Time (Timestamp nanosPerSecond)

namespace Time.Timestamp

/-- The moment `n` nanoseconds before `t`, as a second and the nanoseconds in it, whether or not
the calendar has it. -/
def back (t : Timestamp) (n : Int) : Int × Int :=
  if nanosPerSecond ≤ t.nanos ∧ n < nanosPerSecond then (t.seconds, t.nanos - n)
  else ((t.toNanos - n) / nanosPerSecond, (t.toNanos - n) % nanosPerSecond)

/-- `t` is not after a moment. -/
def AtOrBefore (t : Timestamp) (moment : Int × Int) : Prop :=
  t.seconds < moment.1 ∨ t.seconds = moment.1 ∧ (t.nanos : Int) ≤ moment.2

instance (t : Timestamp) (moment : Int × Int) : Decidable (t.AtOrBefore moment) :=
  inferInstanceAs (Decidable (_ ∨ _))

theorem ofParts?_eq_some {seconds : Int} {nanos : Nat} {t : Timestamp}
    (h : ofParts? seconds nanos = some t) : t.seconds = seconds ∧ t.nanos = nanos := by
  unfold ofParts? at h
  split at h
  · cases h
    exact ⟨rfl, rfl⟩
  · cases h

/-- What is not after some parts of a time is what is not after that time, if the parts are a time
of the calendar unless they are too early for it. -/
theorem le_ofParts?_iff (e : Timestamp) (seconds : Int) (nanos : Nat)
    (hlast : seconds ≤ maxSeconds) (hnanos : nanos < 2 * nanosPerSecond)
    (hleap : nanosPerSecond ≤ nanos → seconds % 60 = 59) :
    (∃ t, ofParts? seconds nanos = some t ∧ e ≤ t) ↔ e.AtOrBefore (seconds, nanos) := by
  have hle (t : Timestamp) (ht : ofParts? seconds nanos = some t) :
      e ≤ t ↔ e.AtOrBefore (seconds, nanos) := by
    obtain ⟨hs, hn⟩ := ofParts?_eq_some ht
    show (e.seconds < t.seconds ∨ e.seconds = t.seconds ∧ e.nanos ≤ t.nanos) ↔ _
    simp only [AtOrBefore, hs, hn, Int.ofNat_le]
  constructor
  · rintro ⟨t, ht, h⟩
    exact (hle t ht).mp h
  · intro h
    -- the calendar has the second: what is not after it is in the calendar
    have hfirst : minSeconds ≤ seconds := by
      have hmem := e.seconds_mem.1
      rcases h with h | ⟨h, -⟩
      · exact Int.le_trans hmem (Int.le_of_lt h)
      · exact Int.le_trans hmem (Int.le_of_eq h)
    have hparts : ofParts? seconds nanos =
        some ⟨seconds, nanos, ⟨hfirst, hlast⟩, hnanos, hleap⟩ :=
      dif_pos ⟨⟨hfirst, hlast⟩, hnanos, hleap⟩
    exact ⟨_, hparts, (hle _ hparts).mpr h⟩

/-- What is not after a time that lies some nanoseconds back, if the calendar has that time, is
what is not after that moment. -/
theorem le_add?_neg_iff (e t : Timestamp) (n : Int) (hn : 0 ≤ n) :
    (∃ c, t.add? (-n) = some c ∧ e ≤ c) ↔ e.AtOrBefore (t.back n) := by
  have hlt := t.nanos_lt
  have hmax := t.seconds_mem.2
  have hunit : nanosPerSecond = 1000000000 := rfl
  have hcount (h : t.nanos < nanosPerSecond ∨ nanosPerSecond ≤ n) :
      (∃ c, ofNanos? (t.toNanos + -n) = some c ∧ e ≤ c) ↔
        e.AtOrBefore ((t.toNanos - n) / nanosPerSecond, (t.toNanos - n) % nanosPerSecond) := by
    have hmod : 0 ≤ (t.toNanos - n) % (nanosPerSecond : Int) := Int.emod_nonneg _ (by decide)
    have hsmall : (t.toNanos - n) % (nanosPerSecond : Int) < nanosPerSecond :=
      Int.emod_lt_of_pos _ (by decide)
    have hlast : (t.toNanos - n) / (nanosPerSecond : Int) ≤ maxSeconds := by
      simp only [toNanos, nanosPerSecond] at h ⊢
      omega
    have hiff := le_ofParts?_iff e ((t.toNanos - n) / nanosPerSecond)
      ((t.toNanos - n) % nanosPerSecond).toNat hlast (by omega) (by omega)
    rw [Int.toNat_of_nonneg hmod] at hiff
    exact hiff
  by_cases hleap : nanosPerSecond ≤ t.nanos
  · by_cases hstay : n < nanosPerSecond
    · have hparts : t.add? (-n) = ofParts? t.seconds (t.nanos + -n).toNat := by
        rw [add?, if_pos hleap, if_neg (by omega), if_neg (by omega)]
      have hiff := le_ofParts?_iff e t.seconds (t.nanos + -n).toNat hmax (by omega)
        fun _ => t.leap hleap
      rw [hparts, hiff, back, if_pos ⟨hleap, hstay⟩, Int.toNat_of_nonneg (by omega)]
      rfl
    · have hnanos : t.add? (-n) = ofNanos? (t.toNanos + -n) := by
        rw [add?, if_pos hleap, if_neg (by omega), if_pos (by omega)]
      rw [hnanos, hcount (Or.inr (by omega)), back, if_neg fun h => hstay h.2]
  · have hnanos : t.add? (-n) = ofNanos? (t.toNanos + -n) := by rw [add?, if_neg hleap]
    rw [hnanos, hcount (Or.inl (by omega)), back, if_neg fun h => hleap h.1]

end Time.Timestamp

namespace Registry

/-- A call on a registry, and the time that its clock shows then. -/
inductive Event
  | wait (request : WaitRequest) (now : Timestamp)
  | poll (name : String) (now : Timestamp)
  | cleanup (retention : Int) (now : Timestamp)

inductive Reply
  | started (o : Operation)
  | polled (result : Except Status Operation)
  | cleaned (count : Nat)

def perform (r : Registry) : Event → Reply × Registry
  | .wait request now => let (o, r) := r.wait request now; (.started o, r)
  | .poll name now => (.polled (r.get name now), r)
  | .cleanup retention now => let (n, r) := r.cleanup retention now; (.cleaned n, r)

/-- The registry that some calls leave, one after the other. -/
def after (events : List Event) : Registry := events.foldl (fun r e => (r.perform e).2) empty

/-- The registry that some calls leave of another one. -/
def run (r : Registry) (events : List Event) : Registry :=
  events.foldl (fun r e => (r.perform e).2) r

def Reply.started? : Reply → Option Operation
  | .started o => some o
  | _ => none

/-- The operations that some calls start, one after the other. -/
def begun (r : Registry) : List Event → List Operation
  | [] => []
  | e :: events => (r.perform e).1.started?.toList ++ begun (r.perform e).2 events

/-- The reply to a call that is made behind others. -/
def reply (front : List Event) (e : Event) : Reply := ((after front).perform e).1

/-- The number of waits among some calls. -/
def waits (events : List Event) : Nat :=
  events.countP fun e => match e with | .wait _ _ => true | _ => false

/-- Among `events`, the wait behind `front` returned `o`, and `since` came behind that. -/
structure Started (events front since : List Event) (request : WaitRequest) (now : Timestamp)
    (o : Operation) : Prop where
  split : events = front ++ .wait request now :: since
  returned : reply front (.wait request now) = .started o

/-- No cleanup has found the operation of a request to have ended long enough ago. -/
def Spared (since : List Event) (request : WaitRequest) (started : Timestamp) : Prop :=
  ∀ retention now, .cleanup retention now ∈ since →
    ¬ (request.doneAt started).AtOrBefore (now.back retention)

/-- At time `now`, `o` is the operation that a wait started under that name. -/
structure Shows (o : Operation) (name : String) (request : WaitRequest)
    (started now : Timestamp) : Prop where
  name : o.name = name
  endTime : o.endTime = request.doneAt started
  done : o.done = true ↔ request.doneAt started ≤ now
  pending : o.done = false → o.result = none
  failed : ∀ s, o.done = true → request.error = some s → s.code ≠ .ok →
    o.result = some (.error s)
  succeeded : o.done = true → (∀ s, request.error = some s → s.code = .ok) →
    o.result = some (.response (request.success.getD .default))

theorem after_snoc (events : List Event) (e : Event) :
    after (events ++ [e]) = ((after events).perform e).2 := by
  simp [after]

theorem waits_split (front since : List Event) (request : WaitRequest) (now : Timestamp) :
    waits (front ++ .wait request now :: since) = waits front + 1 + waits since := by
  simp only [waits, List.countP_append, List.countP_cons, if_true]
  omega

/-- The calls before a place in `events` followed by `e` are all of `events`, or are the calls
before a place in `events`. -/
theorem split_snoc {events front since : List Event} {e x : Event}
    (h : events ++ [e] = front ++ x :: since) :
    (since = [] ∧ front = events ∧ x = e) ∨
      ∃ rest, since = rest ++ [e] ∧ events = front ++ x :: rest := by
  rcases List.eq_nil_or_concat since with rfl | ⟨rest, last, rfl⟩
  · obtain ⟨hfront, hx⟩ := List.append_inj' h rfl
    exact Or.inl ⟨rfl, hfront.symm, (List.cons.inj hx).1.symm⟩
  · have h' : events ++ [e] = (front ++ x :: rest) ++ [last] := by simpa using h
    obtain ⟨hevents, hlast⟩ := List.append_inj' h' rfl
    exact Or.inr ⟨rest, by rw [(List.cons.inj hlast).1, List.concat_eq_append], hevents⟩

theorem nameOf_injective (i j : UInt64) (h : nameOf i = nameOf j) : i = j := by
  have hlists := congrArg String.toList h
  simp only [nameOf, String.toList_append, String.toList_ofList] at hlists
  have hdigits : Nat.toDigits 10 i.toNat = Nat.toDigits 10 j.toNat :=
    List.append_cancel_left hlists
  have hnumbers : i.toNat = j.toNat :=
    calc
      i.toNat = Nat.ofDigitChars 10 (Nat.toDigits 10 i.toNat) 0 :=
        Nat.ofDigitChars_ten_toDigits.symm
      _ = Nat.ofDigitChars 10 (Nat.toDigits 10 j.toNat) 0 := by rw [hdigits]
      _ = j.toNat := Nat.ofDigitChars_ten_toDigits
  exact UInt64.toNat_inj.mp hnumbers

theorem started_name (front : List Event) (request : WaitRequest) (now : Timestamp)
    (o : Operation) (h : reply front (.wait request now) = .started o) :
    o.name = nameOf (after front).nextId := by
  rw [← Reply.started.inj h]
  rfl

/-- The next number counts the waits. -/
theorem nextId_after (events : List Event) :
    (after events).nextId.toNat = (waits events + 1) % 2 ^ 64 := by
  induction events using List.reverseRecOn with
  | nil => rfl
  | append_singleton events e ih =>
    have hcount : waits (events ++ [e]) = waits events + waits [e] := by
      simp [waits, List.countP_append]
    rw [after_snoc, hcount]
    cases e with
    | wait request now =>
      show ((after events).nextId + 1).toNat = _
      have hone : waits [.wait request now] = 1 := rfl
      rw [UInt64.toNat_add, ih, hone]
      simp
    | poll name now => exact ih
    | cleanup retention now =>
      have hsame : ((after events).perform (.cleanup retention now)).2.nextId =
          (after events).nextId := by
        simp only [perform, Registry.cleanup]
        split <;> rfl
      rw [hsame]
      exact ih

theorem begun_append (r : Registry) (front events : List Event) :
    r.begun (front ++ events) = r.begun front ++ (r.run front).begun events := by
  induction front generalizing r with
  | nil => rfl
  | cons e front ih =>
    simp only [List.cons_append, begun, ih, List.append_assoc]
    rfl

theorem after_append (front events : List Event) :
    after (front ++ events) = (after front).run events :=
  List.foldl_append

/-- The names are given out in their order. -/
theorem begun_names (events : List Event) : (empty.begun events).map (·.name) =
    (List.range (waits events)).map fun n => nameOf (.ofNat (n + 1)) := by
  induction events using List.reverseRecOn with
  | nil => rfl
  | append_singleton events e ih =>
    have hcount : waits (events ++ [e]) = waits events + waits [e] := by
      simp [waits, List.countP_append]
    rw [begun_append, List.map_append, ih, hcount]
    cases e with
    | wait request now =>
      have hid : (after events).nextId = .ofNat (waits events + 1) := by
        apply UInt64.toNat_inj.mp
        rw [nextId_after, UInt64.toNat_ofNat']
      have hname : ((after events).begun [.wait request now]).map (·.name) =
          [nameOf (.ofNat (waits events + 1))] := by
        rw [← hid]
        rfl
      have hone : waits [.wait request now] = 1 := rfl
      rw [hone, List.range_succ, List.map_append]
      exact congrArg (_ ++ ·) hname
    | poll name now => exact List.append_nil _
    | cleanup retention now => exact List.append_nil _

/-- As long as the numbers do not run out, no two waits return the same name. -/
theorem front_eq_of_name {events front front' since since' : List Event}
    {request request' : WaitRequest} {now now' : Timestamp} {o o' : Operation}
    (hwaits : waits events < 2 ^ 64) (h : Started events front since request now o)
    (h' : Started events front' since' request' now' o') (hname : o.name = o'.name) :
    front = front' := by
  have hsplit := h.split
  have hnumbers : (after front).nextId.toNat = (after front').nextId.toNat := by
    rw [started_name front request now o h.returned,
      started_name front' request' now' o' h'.returned] at hname
    rw [nameOf_injective _ _ hname]
  have hcount : waits events = waits front + 1 + waits since := by
    rw [hsplit, waits_split]
  have hcount' : waits events = waits front' + 1 + waits since' := by
    rw [h'.split, waits_split]
  rw [nextId_after, nextId_after, Nat.mod_eq_of_lt (by omega), Nat.mod_eq_of_lt (by omega)]
    at hnumbers
  -- of two different places, the later one has the wait at the earlier one before it
  rw [h'.split] at hsplit
  rcases List.append_eq_append_iff.mp hsplit with ⟨more, rfl, hmore⟩ | ⟨more, rfl, hmore⟩
  · cases more with
    | nil => simp
    | cons e more =>
      obtain ⟨rfl, -⟩ := List.cons.inj hmore
      rw [waits_split] at hnumbers
      omega
  · cases more with
    | nil => simp
    | cons e more =>
      obtain ⟨rfl, -⟩ := List.cons.inj hmore
      rw [waits_split] at hnumbers
      omega

/-- Among `events`, the wait behind `front` returned `name`, and its operation is not forgotten. -/
def Holds (events front : List Event) (name : String) (request : WaitRequest)
    (started : Timestamp) : Prop :=
  ∃ since o, Started events front since request started o ∧ o.name = name ∧
    Spared since request started

theorem holds_snoc_iff (events front : List Event) (e : Event) (name : String)
    (request : WaitRequest) (started : Timestamp) :
    Holds (events ++ [e]) front name request started ↔
      (front = events ∧ e = .wait request started ∧ name = nameOf (after events).nextId) ∨
      (Holds events front name request started ∧ ∀ retention now, e = .cleanup retention now →
        ¬ (request.doneAt started).AtOrBefore (now.back retention)) := by
  constructor
  · rintro ⟨since, o, ⟨hsplit, hreturned⟩, rfl, hspared⟩
    rcases split_snoc hsplit with ⟨rfl, rfl, rfl⟩ | ⟨rest, rfl, rfl⟩
    · exact Or.inl ⟨rfl, rfl, started_name _ request started o hreturned⟩
    · refine Or.inr ⟨⟨rest, o, ⟨rfl, hreturned⟩, rfl, fun retention now hm => ?_⟩, ?_⟩
      · exact hspared retention now (List.mem_append_left _ hm)
      · rintro retention now rfl
        exact hspared retention now (by simp)
  · rintro (⟨rfl, rfl, rfl⟩ | ⟨⟨since, o, ⟨rfl, hreturned⟩, rfl, hspared⟩, hlast⟩)
    · exact ⟨[], _, ⟨rfl, rfl⟩, rfl, fun retention now hm => by cases hm⟩
    · refine ⟨since ++ [e], o, ⟨by simp, hreturned⟩, rfl, fun retention now hm => ?_⟩
      rcases List.mem_append.mp hm with hm | hm
      · exact hspared retention now hm
      · exact hlast retention now (List.mem_singleton.mp hm).symm

/-- A cleanup forgets the operations that are not after the moment that lies the retention back,
also if the calendar does not go back that far. -/
theorem mem_cleanup_iff (r : Registry) (retention : Int) (now : Timestamp)
    (hretention : 0 ≤ retention) (p : String × PendingOperation) :
    p ∈ (r.cleanup retention now).2.operations ↔
      p ∈ r.operations ∧ ¬ p.2.endTime.AtOrBefore (now.back retention) := by
  have hmoment := Timestamp.le_add?_neg_iff p.2.endTime now retention hretention
  unfold Registry.cleanup
  cases hc : now.add? (-retention) with
  | none =>
    have hnever : ¬ p.2.endTime.AtOrBefore (now.back retention) := by
      rw [← hmoment, hc]
      rintro ⟨c, h, -⟩
      cases h
    exact ⟨fun h => ⟨h, hnever⟩, fun h => h.1⟩
  | some cutoff =>
    have hcutoff : p.2.endTime ≤ cutoff ↔ p.2.endTime.AtOrBefore (now.back retention) := by
      rw [← hmoment, hc]
      exact ⟨fun h => ⟨cutoff, rfl, h⟩, fun ⟨c, h, hle⟩ => Option.some.inj h ▸ hle⟩
    simp only [List.mem_filter, decide_eq_true_eq, hcutoff]

/-- The names of the operations that are not forgotten were all returned before, so the next wait
returns a new one. -/
theorem fresh_name {events front : List Event} {name : String} {request request' : WaitRequest}
    {started now : Timestamp} (hwaits : waits (events ++ [.wait request' now]) < 2 ^ 64)
    (h : Holds events front name request started) : name ≠ nameOf (after events).nextId := by
  rintro rfl
  obtain ⟨since, o, ⟨hsplit, hreturned⟩, hname, -⟩ := h
  have hearly : Started (events ++ [.wait request' now]) front (since ++ [.wait request' now])
      request started o := ⟨by simp [hsplit], hreturned⟩
  have hlate : Started (events ++ [.wait request' now]) events [] request' now
      ((after events).wait request' now).1 := ⟨rfl, rfl⟩
  have hfront : front = events := front_eq_of_name hwaits hearly hlate hname
  have hlen := congrArg List.length hsplit
  simp [hfront] at hlen

theorem mem_operations_iff (events : List Event) (hwaits : waits events < 2 ^ 64)
    (hretention : ∀ retention now, Event.cleanup retention now ∈ events → 0 ≤ retention)
    (name : String) (p : PendingOperation) :
    (name, p) ∈ (after events).operations ↔ ∃ front request started,
      Holds events front name request started ∧ p = ⟨request.doneAt started, request⟩ := by
  induction events using List.reverseRecOn with
  | nil =>
    constructor
    · intro h
      cases h
    · rintro ⟨front, request, started, ⟨since, o, ⟨hsplit, -⟩, -, -⟩, -⟩
      simp at hsplit
  | append_singleton events e ih =>
    have hfewer : waits events < 2 ^ 64 := by
      have hcount : waits (events ++ [e]) = waits events + waits [e] := by
        simp [waits, List.countP_append]
      omega
    have ih := ih hfewer fun retention now hm =>
      hretention retention now (List.mem_append_left _ hm)
    simp only [holds_snoc_iff, after_snoc]
    cases e with
    | wait request now =>
      have hfresh (h : (name, p) ∈ (after events).operations) :
          name ≠ nameOf (after events).nextId := by
        obtain ⟨front, request', started, hholds, -⟩ := ih.mp h
        exact fresh_name hwaits hholds
      have hmem : (name, p) ∈ ((after events).perform (.wait request now)).2.operations ↔
          (name, p) ∈ (after events).operations ∨
            name = nameOf (after events).nextId ∧ p = ⟨request.doneAt now, request⟩ := by
        simp only [perform, Registry.wait, Registry.insert, List.mem_append, List.mem_filter,
          decide_not, Bool.not_eq_true', decide_eq_false_iff_not, List.mem_singleton,
          Prod.mk.injEq]
        exact or_congr_left ⟨fun h => h.1, fun h => ⟨h, hfresh h⟩⟩
      rw [hmem, ih]
      constructor
      · rintro (⟨front, request', started, hholds, rfl⟩ | ⟨rfl, rfl⟩)
        · exact ⟨front, request', started, Or.inr ⟨hholds, fun _ _ h => by cases h⟩, rfl⟩
        · exact ⟨events, request, now, Or.inl ⟨rfl, rfl, rfl⟩, rfl⟩
      · rintro ⟨front, request', started, ⟨rfl, h, rfl⟩ | ⟨hholds, -⟩, rfl⟩
        · cases h
          exact Or.inr ⟨rfl, rfl⟩
        · exact Or.inl ⟨front, request', started, hholds, rfl⟩
    | poll asked now =>
      show (name, p) ∈ (after events).operations ↔ _
      rw [ih]
      constructor
      · rintro ⟨front, request, started, hholds, rfl⟩
        exact ⟨front, request, started, Or.inr ⟨hholds, fun _ _ h => by cases h⟩, rfl⟩
      · rintro ⟨front, request, started, ⟨-, h, -⟩ | ⟨hholds, -⟩, rfl⟩
        · cases h
        · exact ⟨front, request, started, hholds, rfl⟩
    | cleanup retention now =>
      show (name, p) ∈ ((after events).cleanup retention now).2.operations ↔ _
      rw [mem_cleanup_iff _ retention now (hretention retention now (by simp)), ih]
      constructor
      · rintro ⟨⟨front, request, started, hholds, rfl⟩, hlate⟩
        refine ⟨front, request, started, Or.inr ⟨hholds, fun retention' now' h => ?_⟩, rfl⟩
        cases h
        exact hlate
      · rintro ⟨front, request, started, ⟨-, h, -⟩ | ⟨hholds, hlate⟩, rfl⟩
        · cases h
        · exact ⟨⟨front, request, started, hholds, rfl⟩, hlate retention now rfl⟩

/-- No two waits return the same name, so a name is found exactly if it is registered. -/
theorem find?_after_iff (events : List Event) (hwaits : waits events < 2 ^ 64)
    (hretention : ∀ retention now, Event.cleanup retention now ∈ events → 0 ≤ retention)
    (name : String) (p : PendingOperation) :
    (after events).find? name = some p ↔ ∃ front request started,
      Holds events front name request started ∧ p = ⟨request.doneAt started, request⟩ := by
  have hmem := mem_operations_iff events hwaits hretention name
  have hfound (q : PendingOperation) (h : (after events).find? name = some q) :
      (name, q) ∈ (after events).operations := by
    obtain ⟨⟨name', q'⟩, hq, rfl⟩ := Option.map_eq_some_iff.mp h
    obtain rfl : name' = name := by simpa using List.find?_some hq
    exact List.mem_of_find?_eq_some hq
  rw [← hmem]
  refine ⟨hfound p, fun hp => ?_⟩
  obtain ⟨q, hq⟩ : ∃ q, (after events).find? name = some q := by
    rw [← Option.isSome_iff_exists, Registry.find?, Option.isSome_map, List.find?_isSome]
    exact ⟨(name, p), hp, by simp⟩
  obtain ⟨front, request, started, ⟨since, o, hs, hname, -⟩, rfl⟩ := (hmem p).mp hp
  obtain ⟨front', request', started', ⟨since', o', hs', hname', -⟩, rfl⟩ :=
    (hmem q).mp (hfound q hq)
  obtain rfl := front_eq_of_name hwaits hs hs' (hname.trans hname'.symm)
  have hsame := hs.split.symm.trans hs'.split
  obtain ⟨heq, -⟩ := List.cons.inj (List.append_cancel_left hsame)
  cases heq
  exact hq

theorem shows_snapshot (name : String) (request : WaitRequest) (started now : Timestamp) :
    Shows (PendingOperation.snapshot ⟨request.doneAt started, request⟩ name now) name request
      started now := by
  have hresult (h : request.doneAt started ≤ now) :
      (PendingOperation.snapshot ⟨request.doneAt started, request⟩ name now).result =
        some (PendingOperation.result ⟨request.doneAt started, request⟩) := by
    simp [PendingOperation.snapshot, h]
  refine ⟨rfl, rfl, by simp [PendingOperation.snapshot], fun h => ?_, fun s h hs hcode => ?_,
    fun h hok => ?_⟩
  · have hlater : ¬ request.doneAt started ≤ now := by simpa [PendingOperation.snapshot] using h
    simp [PendingOperation.snapshot, hlater]
  · have hdone : request.doneAt started ≤ now := by simpa [PendingOperation.snapshot] using h
    rw [hresult hdone]
    simp [PendingOperation.result, hs, Status.resolve, Code.isOk, hcode]
  · have hdone : request.doneAt started ≤ now := by simpa [PendingOperation.snapshot] using h
    have hresolve : Status.resolve request.error = .ok () := by
      cases he : request.error with
      | none => rfl
      | some s => simp [Status.resolve, Code.isOk, hok s he]
    rw [hresult hdone]
    simp [PendingOperation.result, hresolve]

section
variable {events front since : List Event} {name : String} {request : WaitRequest}
  {started now : Timestamp} {e : Event}

theorem waits_front_lt (hwaits : waits events < 2 ^ 64) (hsplit : events = front ++ since) :
    waits front < 2 ^ 64 := by
  have hcount : waits events = waits front + waits since := by
    rw [hsplit, waits, List.countP_append]
    rfl
  omega

/-- A wait returns another name than every wait before it. -/
theorem started_ne (hwaits : waits (front ++ .wait request now :: since) < 2 ^ 64)
    {front' since' : List Event} {request' : WaitRequest} {now' : Timestamp} {o' : Operation}
    (h : Started front front' since' request' now' o') :
    o'.name ≠ ((after front).wait request now).1.name := by
  intro hname
  have hearly : Started (front ++ .wait request now :: since) front'
      (since' ++ .wait request now :: since) request' now' o' :=
    ⟨by simp [h.split], h.returned⟩
  have hlate : Started (front ++ .wait request now :: since) front since request now
      ((after front).wait request now).1 := ⟨rfl, rfl⟩
  have hsame : front' = front := front_eq_of_name hwaits hearly hlate hname
  have hlen := congrArg List.length h.split
  simp [hsame] at hlen

theorem reply_of_holds (hwaits : waits front < 2 ^ 64)
    (hretention : ∀ retention now, Event.cleanup retention now ∈ front → 0 ≤ retention)
    {before : List Event} (h : Holds front before name request started) :
    reply front (.poll name now) =
      .polled (.ok (PendingOperation.snapshot ⟨request.doneAt started, request⟩ name now)) := by
  have hfind : (after front).find? name = some ⟨request.doneAt started, request⟩ :=
    (find?_after_iff front hwaits hretention name _).mpr ⟨before, request, started, h, rfl⟩
  show Reply.polled ((after front).get name now) = _
  rw [Registry.get, hfind]

theorem reply_of_not_holds (hwaits : waits front < 2 ^ 64)
    (hretention : ∀ retention now, Event.cleanup retention now ∈ front → 0 ≤ retention)
    (h : ∀ before request started, ¬ Holds front before name request started) :
    reply front (.poll name now) = .polled (.error (unknownName name)) := by
  have hnone : (after front).find? name = none := by
    rw [Option.eq_none_iff_forall_ne_some]
    intro p hp
    obtain ⟨before, request, started, hholds, -⟩ :=
      (find?_after_iff front hwaits hretention name p).mp hp
    exact h before request started hholds
  show Reply.polled ((after front).get name now) = _
  rw [Registry.get, hnone]

end

/-- As long as the waits are fewer than the numbers for their names, a poll finds the operation of
the one wait that returned the name, unless a cleanup since then has forgotten it. -/
theorem registry_behaves_as_log (events : List Event) (hwaits : waits events < 2 ^ 64)
    (hretention : ∀ retention now, Event.cleanup retention now ∈ events → 0 ≤ retention) :
    (∀ front since request now, events = front ++ .wait request now :: since →
      ∃ o, Started events front since request now o ∧ Shows o o.name request now now ∧
        (∀ front' since' request' now' o',
          Started front front' since' request' now' o' → o'.name ≠ o.name) ∧
        (after front).find? o.name = none ∧
        ∀ name p, (after front).find? name = some p →
          (after (front ++ [.wait request now])).find? name = some p) ∧
    (∀ front since name now, events = front ++ .poll name now :: since →
      after (front ++ [.poll name now]) = after front ∧
      ((∃ o, reply front (.poll name now) = .polled (.ok o)) ↔
        ∃ before request started, Holds front before name request started) ∧
      (∀ before request started, Holds front before name request started →
        (∃ o, reply front (.poll name now) = .polled (.ok o) ∧
          Shows o name request started now) ∧
        ∀ before' since' request' started' o',
          Started front before' since' request' started' o' → o'.name = name →
            before' = before) ∧
      ((∀ before request started, ¬ Holds front before name request started) →
        reply front (.poll name now) =
          .polled (.error ⟨.notFound, "Operation " ++ name ++ " not found", []⟩))) := by
  constructor
  · rintro front since request now rfl
    have hfewer : waits front < 2 ^ 64 := waits_front_lt hwaits rfl
    have hkeep (retention : Int) (t : Timestamp) (hm : Event.cleanup retention t ∈ front) :
        0 ≤ retention := hretention retention t (List.mem_append_left _ hm)
    refine ⟨_, ⟨rfl, rfl⟩, shows_snapshot _ request now now,
      fun _ _ _ _ _ h => started_ne hwaits h, ?_, fun name p hp => ?_⟩
    · rw [Option.eq_none_iff_forall_ne_some]
      intro p hp
      obtain ⟨front', request', started, ⟨since', o', hs, hname, -⟩, -⟩ :=
        (find?_after_iff front hfewer hkeep _ p).mp hp
      exact started_ne hwaits hs hname
    -- the log of the calls with the wait behind them holds what it held before
    · have hsplit : front ++ .wait request now :: since =
          (front ++ [.wait request now]) ++ since := by simp
      have hwaits' : waits (front ++ [.wait request now]) < 2 ^ 64 :=
        waits_front_lt hwaits hsplit
      have hkeep' (retention : Int) (t : Timestamp)
          (hm : Event.cleanup retention t ∈ front ++ [.wait request now]) : 0 ≤ retention := by
        rcases List.mem_append.mp hm with hm | hm
        · exact hkeep retention t hm
        · simp at hm
      obtain ⟨front', request', started, hholds, rfl⟩ :=
        (find?_after_iff front hfewer hkeep name p).mp hp
      refine (find?_after_iff _ hwaits' hkeep' name _).mpr ⟨front', request', started, ?_, rfl⟩
      exact (holds_snoc_iff _ _ _ _ _ _).mpr (Or.inr ⟨hholds, fun _ _ h => by cases h⟩)
  · rintro front since name now rfl
    have hfewer : waits front < 2 ^ 64 := waits_front_lt hwaits rfl
    have hkeep (retention : Int) (t : Timestamp) (hm : Event.cleanup retention t ∈ front) :
        0 ≤ retention := hretention retention t (List.mem_append_left _ hm)
    have hlost (h : ∀ before request started, ¬ Holds front before name request started) :
        reply front (.poll name now) = .polled (.error (unknownName name)) :=
      reply_of_not_holds hfewer hkeep h
    refine ⟨after_snoc front _, ⟨fun ⟨o, ho⟩ => ?_, fun ⟨before, request, started, h⟩ => ?_⟩,
      fun before request started h => ⟨?_, ?_⟩, hlost⟩
    · by_contra hno
      rw [hlost fun before request started h => hno ⟨before, request, started, h⟩] at ho
      cases ho
    · exact ⟨_, reply_of_holds hfewer hkeep h⟩
    · exact ⟨_, reply_of_holds hfewer hkeep h, shows_snapshot name request started now⟩
    · obtain ⟨since', o, hs, hname, -⟩ := h
      intro before' since'' request' started' o' hs' hname'
      exact front_eq_of_name hfewer hs' hs (hname'.trans hname.symm)

/-- An operation that is done at once is found, until a cleanup without retention. -/
theorem registry_behaves_as_log_forgets :
    ∃ (t : Timestamp) (request : WaitRequest) (name : String) (events : List Event),
      events = [.wait request t, .poll name t, .cleanup 0 t, .poll name t] ∧
      waits events < 2 ^ 64 ∧
      (∀ retention now, Event.cleanup retention now ∈ events → 0 ≤ retention) ∧
      (∃ o, reply [.wait request t] (.poll name t) = .polled (.ok o) ∧
        Shows o name request t t) ∧
      reply [.wait request t, .poll name t, .cleanup 0 t] (.poll name t) =
        .polled (.error ⟨.notFound, "Operation " ++ name ++ " not found", []⟩) := by
  let t : Timestamp := ⟨0, 0, by decide, by decide, by decide⟩
  let request : WaitRequest := ⟨some t, none, none, some ⟨"hi"⟩⟩
  let name : String := nameOf 1
  have hwaits : waits [.wait request t, .poll name t, .cleanup 0 t, .poll name t] < 2 ^ 64 := by
    decide
  have hretention (retention : Int) (now : Timestamp) (hm : Event.cleanup retention now ∈
      [.wait request t, .poll name t, .cleanup 0 t, .poll name t]) : 0 ≤ retention := by
    simp only [List.mem_cons, reduceCtorEq, Event.cleanup.injEq, List.not_mem_nil, or_false,
      false_or] at hm
    omega
  have hlog := (registry_behaves_as_log _ hwaits hretention).2
  have hholds : Holds [.wait request t] [] name request t :=
    ⟨[], _, ⟨rfl, rfl⟩, rfl, fun _ _ hm => by cases hm⟩
  have hforgotten (before : List Event) (request' : WaitRequest) (started : Timestamp) :
      ¬ Holds [.wait request t, .poll name t, .cleanup 0 t] before name request' started := by
    rintro ⟨since, o, ⟨hsplit, -⟩, -, hspared⟩
    rcases before with _ | ⟨a, _ | ⟨b, _ | ⟨c, before⟩⟩⟩ <;> simp at hsplit
    obtain ⟨⟨rfl, rfl⟩, rfl⟩ := hsplit
    exact hspared 0 t (by simp) (by decide)
  exact ⟨t, request, name, _, rfl, hwaits, hretention,
    ((hlog [.wait request t] _ name t rfl).2.2.1 [] request t hholds).1,
    (hlog [.wait request t, .poll name t, .cleanup 0 t] _ name t rfl).2.2.2 hforgotten⟩

end Registry
end EchoServer
