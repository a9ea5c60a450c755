import EchoServer.Proofs.Operation.Log

namespace EchoServer

open Time (Timestamp)

namespace Time.Timestamp

theorem le_refl (t : Timestamp) : t ≤ t := Or.inr ⟨rfl, Nat.le_refl _⟩

theorem le_trans {t u v : Timestamp} (htu : t ≤ u) (huv : u ≤ v) : t ≤ v := by
  have htu' : t.seconds < u.seconds ∨ t.seconds = u.seconds ∧ t.nanos ≤ u.nanos := htu
  have huv' : u.seconds < v.seconds ∨ u.seconds = v.seconds ∧ u.nanos ≤ v.nanos := huv
  show t.seconds < v.seconds ∨ t.seconds = v.seconds ∧ t.nanos ≤ v.nanos
  omega

end Time.Timestamp

namespace Registry

/-- The time that the clock shows at a call. -/
def Event.now : Event → Timestamp
  | .wait _ now => now
  | .poll _ now => now
  | .cleanup _ now => now

/-- The snapshot that a reply hands out. -/
def Reply.snapshot? : Reply → Option Operation
  | .started o => some o
  | .polled (.ok o) => some o
  | .polled (.error _) => none
  | .cleaned _ => none

/-- Of the waits among `events` that returned `name`, the one behind `origin` is the last. -/
structure Latest (events origin : List Event) (name : String) (request : WaitRequest)
    (started : Timestamp) : Prop where
  made : origin ++ [.wait request started] <+: events
  returned : ((after origin).wait request started).1.name = name
  last : ∀ other request' started', other ++ [.wait request' started'] <+: events →
    ((after other).wait request' started').1.name = name → other.length ≤ origin.length

/-- Among `events`, the call `e` behind `front` hands out `o`, a snapshot of the operation that the
wait behind `origin` started. -/
structure Shown (events origin front : List Event) (e : Event) (o : Operation) : Prop where
  made : front ++ [e] <+: events
  seen : (reply front e).snapshot? = some o
  origin : ∃ request started, Latest (front ++ [e]) origin o.name request started

section
variable {events origin origin' front front' : List Event} {name : String}
  {request request' : WaitRequest} {started started' now : Timestamp} {e e' : Event}
  {o : Operation}

/-- At one place there is one call. -/
theorem eq_of_same_length (h : front ++ [e] <+: events) (h' : front' ++ [e'] <+: events)
    (hlength : front.length = front'.length) : front = front' ∧ e = e' := by
  have hprefix : front ++ [e] <+: front' ++ [e'] :=
    List.prefix_of_prefix_length_le h h' (by simp [hlength])
  have hsame := hprefix.eq_of_length (by simp [hlength])
  obtain ⟨hfront, he⟩ := List.append_inj hsame hlength
  exact ⟨hfront, (List.cons.inj he).1⟩

theorem now_le_now (hclock : (events.map Event.now).Pairwise (· ≤ ·))
    (h : front ++ [e] <+: events) (h' : front' ++ [e'] <+: events)
    (hlength : front.length ≤ front'.length) : e.now ≤ e'.now := by
  have hprefix : front ++ [e] <+: front' ++ [e'] :=
    List.prefix_of_prefix_length_le h h' (by simpa using hlength)
  rcases List.prefix_concat_iff.mp hprefix with hsame | hearlier
  · obtain ⟨-, he⟩ := List.append_inj' hsame rfl
    rw [(List.cons.inj he).1]
    exact Timestamp.le_refl _
  · have hmem : e ∈ front' := hearlier.subset (by simp)
    have hpairs : ((front' ++ [e']).map Event.now).Pairwise (· ≤ ·) :=
      hclock.sublist (h'.sublist.map _)
    rw [List.map_append, List.pairwise_append] at hpairs
    exact hpairs.2.2 _ (List.mem_map_of_mem hmem) _ (by simp)

theorem Latest.unique (h : Latest events origin name request started)
    (h' : Latest events origin' name request' started') : origin = origin' := by
  have hle := h'.last _ _ _ h.made h.returned
  have hge := h.last _ _ _ h'.made h'.returned
  exact (eq_of_same_length h.made h'.made (Nat.le_antisymm hle hge)).1

/-- A call that does not return the name leaves the last wait that did. -/
theorem Latest.snoc (h : Latest events origin name request started)
    (hother : ∀ request' started', e = .wait request' started' →
      ((after events).wait request' started').1.name ≠ name) :
    Latest (events ++ [e]) origin name request started := by
  refine ⟨h.made.trans (List.prefix_append ..), h.returned, ?_⟩
  intro other request' started' hmade hreturned
  rcases List.prefix_concat_iff.mp hmade with hsame | hearlier
  · obtain ⟨rfl, he⟩ := List.append_inj' hsame rfl
    exact absurd hreturned (hother _ _ (List.cons.inj he).1.symm)
  · exact h.last other request' started' hearlier hreturned

theorem latest_wait (events : List Event) (request : WaitRequest) (now : Timestamp) :
    Latest (events ++ [.wait request now]) events ((after events).wait request now).1.name
      request now := by
  refine ⟨List.prefix_rfl, rfl, ?_⟩
  intro other request' started' hmade _
  simpa using hmade.length_le

/-- A call registers nothing but what a wait starts, and that under the name it returns. -/
theorem mem_perform {r : Registry} {p : PendingOperation}
    (h : (name, p) ∈ (r.perform e).2.operations) :
    ((name, p) ∈ r.operations ∧
      ∀ request now, e = .wait request now → (r.wait request now).1.name ≠ name) ∨
    ∃ request now, e = .wait request now ∧ (r.wait request now).1.name = name ∧
      p = ⟨request.doneAt now, request⟩ := by
  cases e with
  | wait request now =>
    rcases List.mem_append.mp h with hkept | hnew
    · obtain ⟨hmem, hname⟩ := List.mem_filter.mp hkept
      refine Or.inl ⟨hmem, ?_⟩
      rintro _ _ ⟨⟩ hsame
      exact of_decide_eq_true hname hsame.symm
    · obtain ⟨rfl, rfl⟩ := Prod.mk.inj (List.mem_singleton.mp hnew)
      exact Or.inr ⟨request, now, rfl, rfl, rfl⟩
  | poll asked now =>
    refine Or.inl ⟨h, ?_⟩
    rintro _ _ ⟨⟩
  | cleanup retention now =>
    refine Or.inl ⟨?_, ?_⟩
    · change (name, p) ∈ (r.cleanup retention now).2.operations at h
      unfold Registry.cleanup at h
      split at h
      · exact h
      · exact (List.mem_filter.mp h).1
    · rintro _ _ ⟨⟩

theorem mem_of_find? {r : Registry} {p : PendingOperation} (h : r.find? name = some p) :
    (name, p) ∈ r.operations := by
  obtain ⟨⟨name', q⟩, hq, rfl⟩ := Option.map_eq_some_iff.mp h
  obtain rfl : name' = name := by simpa using List.find?_some hq
  exact List.mem_of_find?_eq_some hq

/-- What is registered under a name was started by the last wait that returned it, also after the
numbers have run out and names come again. -/
theorem latest_of_mem (events : List Event) {p : PendingOperation}
    (h : (name, p) ∈ (after events).operations) : ∃ origin request started,
      Latest events origin name request started ∧ p = ⟨request.doneAt started, request⟩ := by
  induction events using List.reverseRecOn with
  | nil => cases h
  | append_singleton events e ih =>
    rw [after_snoc] at h
    -- either `e` does not return the name, or it is itself the last wait that does
    rcases mem_perform h with ⟨hmem, hother⟩ | ⟨request, now, rfl, hname, hp⟩
    · obtain ⟨origin, request, started, hlatest, hp⟩ := ih hmem
      exact ⟨origin, request, started, hlatest.snoc hother, hp⟩
    · refine ⟨events, request, now, ?_, hp⟩
      rw [← hname]
      exact latest_wait events request now

theorem exists_found (h : (reply front (.poll name now)).snapshot? = some o) :
    ∃ p, (after front).find? name = some p ∧ o = p.snapshot name now := by
  have hseen : (Reply.polled ((after front).get name now)).snapshot? = some o := h
  unfold Registry.get at hseen
  split at hseen
  · rename_i p hfind
    exact ⟨p, hfind, (Option.some.inj hseen).symm⟩
  · cases hseen

/-- A snapshot is of the operation of the last wait that returned its name. -/
theorem exists_latest (h : (reply front e).snapshot? = some o) : ∃ origin request started,
    Latest (front ++ [e]) origin o.name request started ∧
      o = PendingOperation.snapshot ⟨request.doneAt started, request⟩ o.name e.now := by
  cases e with
  | wait request now =>
    obtain rfl := Option.some.inj h
    exact ⟨front, request, now, latest_wait front request now, rfl⟩
  | poll name now =>
    obtain ⟨p, hfind, rfl⟩ := exists_found h
    obtain ⟨origin, request, started, hlatest, rfl⟩ := latest_of_mem front (mem_of_find? hfind)
    refine ⟨origin, request, started, hlatest.snoc ?_, rfl⟩
    rintro _ _ ⟨⟩
  | cleanup retention now => cases h

/-- What is handed out of an operation follows from the wait that started it and the time. -/
theorem Shown.eq_snapshot (h : Shown events origin front e o)
    (hmade : origin ++ [.wait request started] <+: events) :
    o = PendingOperation.snapshot ⟨request.doneAt started, request⟩
      ((after origin).wait request started).1.name e.now := by
  obtain ⟨request₁, started₁, hlatest⟩ := h.origin
  obtain ⟨origin₂, request₂, started₂, hlatest', ho⟩ := exists_latest h.seen
  obtain rfl := hlatest.unique hlatest'
  -- both are about the wait at one place of the run, so it is one wait
  obtain ⟨-, hwait⟩ := eq_of_same_length hmade (hlatest'.made.trans h.made) rfl
  obtain ⟨rfl, rfl⟩ := Event.wait.inj hwait
  rw [ho, ← hlatest'.returned]

theorem Shown.exists_wait (h : Shown events origin front e o) :
    ∃ request started, origin ++ [.wait request started] <+: events := by
  obtain ⟨request, started, hlatest⟩ := h.origin
  exact ⟨request, started, hlatest.made.trans h.made⟩

theorem Shown.done_iff (h : Shown events origin front e o) : o.done = true ↔ o.endTime ≤ e.now := by
  obtain ⟨request, started, hmade⟩ := h.exists_wait
  rw [h.eq_snapshot hmade]
  simp [PendingOperation.snapshot]

theorem Shown.result_isSome_iff (h : Shown events origin front e o) :
    o.result.isSome = true ↔ o.done = true := by
  obtain ⟨request, started, hmade⟩ := h.exists_wait
  rw [h.eq_snapshot hmade]
  simp only [PendingOperation.snapshot]
  split <;> simp_all

/-- Snapshots of one operation differ in the time alone. -/
theorem Shown.agree (h : Shown events origin front e o) {o' : Operation}
    (h' : Shown events origin front' e' o') :
    o.name = o'.name ∧ o.endTime = o'.endTime ∧
      ∀ x x', o.result = some x → o'.result = some x' → x = x' := by
  obtain ⟨request, started, hmade⟩ := h.exists_wait
  rw [h.eq_snapshot hmade, h'.eq_snapshot hmade]
  refine ⟨rfl, rfl, ?_⟩
  intro x x' hx hx'
  obtain ⟨-, hx⟩ := Option.ite_none_right_eq_some.mp hx
  obtain ⟨-, hx'⟩ := Option.ite_none_right_eq_some.mp hx'
  exact (Option.some.inj hx).symm.trans (Option.some.inj hx')

theorem eq_of_returned (hwaits : waits events < 2 ^ 64)
    (h : origin ++ [.wait request started] <+: events)
    (h' : origin' ++ [.wait request' started'] <+: events)
    (hname : ((after origin).wait request started).1.name =
      ((after origin').wait request' started').1.name) : origin = origin' := by
  obtain ⟨since, hsince⟩ := h
  obtain ⟨since', hsince'⟩ := h'
  have hstarted : Started events origin since request started _ := ⟨by simp [← hsince], rfl⟩
  have hstarted' : Started events origin' since' request' started' _ := ⟨by simp [← hsince'], rfl⟩
  exact front_eq_of_name hwaits hstarted hstarted' hname

theorem not_mem_of_find? {r : Registry} (h : r.find? name = none) (p : PendingOperation) :
    (name, p) ∉ r.operations := by
  intro hmem
  have hnone := List.find?_eq_none.mp (Option.map_eq_none_iff.mp h) _ hmem
  simp at hnone

/-- What was started and is not found any more is never found again. -/
theorem not_found_again (hwaits : waits events < 2 ^ 64)
    (hmade : origin ++ [.wait request started] <+: front)
    (hlost : (after front).find? ((after origin).wait request started).1.name = none)
    (later : List Event) (hlater : front ++ later <+: events) :
    (after (front ++ later)).find? ((after origin).wait request started).1.name = none := by
  induction later using List.reverseRecOn with
  | nil => rwa [List.append_nil]
  | append_singleton later e ih =>
    rw [← List.append_assoc] at hlater ⊢
    have hbefore : front ++ later <+: events := (List.prefix_append ..).trans hlater
    have hnone := ih hbefore
    rw [Option.eq_none_iff_forall_ne_some]
    intro p hp
    rw [after_snoc] at hp
    rcases mem_perform (mem_of_find? hp) with ⟨hmem, -⟩ | ⟨request', now, rfl, hname, -⟩
    · exact not_mem_of_find? hnone p hmem
    -- the name would be that of two waits, of which one is in `front` and the other is behind it
    · have hearly : origin ++ [.wait request started] <+: events :=
        hmade.trans ((List.prefix_append ..).trans hbefore)
      have hsame : origin = front ++ later := eq_of_returned hwaits hearly hlater hname.symm
      have hlength := hmade.length_le
      simp only [hsame, List.length_append, List.length_singleton] at hlength
      omega

/-- Nor is it shown to anybody. -/
theorem not_shown_again (hwaits : waits events < 2 ^ 64)
    (hmade : origin ++ [.wait request started] <+: front)
    (hnone : (after front).find? ((after origin).wait request started).1.name = none)
    (he : front ++ [e] <+: events) (h : (reply front e).snapshot? = some o) :
    o.name ≠ ((after origin).wait request started).1.name := by
  intro hname
  cases e with
  -- a further wait would have to be the one in `front`
  | wait request' now =>
    obtain rfl := Option.some.inj h
    have hearly := hmade.trans ((List.prefix_append ..).trans he)
    have hsame : front = origin := eq_of_returned hwaits he hearly hname
    have hlength := hmade.length_le
    rw [hsame, List.length_append] at hlength
    exact Nat.not_succ_le_self _ hlength
  | poll asked now =>
    obtain ⟨p, hfind, rfl⟩ := exists_found h
    rw [show asked = ((after origin).wait request started).1.name from hname, hnone] at hfind
    cases hfind
  | cleanup retention now => cases h

end

/-- An operation is done from its end time on, always with the same result, if the clock does not go
back. As long as the waits are fewer than the numbers, what is gone does not come back. -/
theorem operations_run_their_course (events : List Event)
    (hclock : (events.map Event.now).Pairwise (· ≤ ·)) :
    (∀ front e o, front ++ [e] <+: events → (reply front e).snapshot? = some o →
      ∃! origin, Shown events origin front e o) ∧
    (∀ origin front e o, Shown events origin front e o →
      (o.done = true ↔ o.endTime ≤ e.now) ∧ (o.result.isSome = true ↔ o.done = true) ∧
      ∀ front' e' o', Shown events origin front' e' o' →
        o.name = o'.name ∧ o.endTime = o'.endTime ∧
        (front.length ≤ front'.length → o.done = true → o'.done = true) ∧
        ∀ x x', o.result = some x → o'.result = some x' → x = x') ∧
    (waits events < 2 ^ 64 →
      (∀ origin front e o origin' front' e' o', Shown events origin front e o →
        Shown events origin' front' e' o' → o.name = o'.name → origin = origin') ∧
      ∀ origin request started front later name,
        origin ++ [.wait request started] <+: front → front ++ later <+: events →
        ((after origin).wait request started).1.name = name → (after front).find? name = none →
        (after (front ++ later)).find? name = none ∧
        ∀ e, front ++ later ++ [e] <+: events →
          (∀ o, (reply (front ++ later) e).snapshot? = some o → o.name ≠ name) ∧
          ∀ now, e = .poll name now →
            reply (front ++ later) e = .polled (.error (unknownName name))) := by
  refine ⟨?_, ?_, fun hwaits => ⟨?_, ?_⟩⟩
  · intro front e o hmade hseen
    obtain ⟨origin, request, started, hlatest, -⟩ := exists_latest hseen
    refine ⟨origin, ⟨hmade, hseen, request, started, hlatest⟩, ?_⟩
    intro other hother
    obtain ⟨request', started', hlatest'⟩ := hother.origin
    exact hlatest'.unique hlatest
  · intro origin front e o h
    refine ⟨h.done_iff, h.result_isSome_iff, ?_⟩
    intro front' e' o' h'
    obtain ⟨hname, hend, hresult⟩ := h.agree h'
    refine ⟨hname, hend, ?_, hresult⟩
    -- the end time is the same, and the clock has not gone back
    intro hlength hdone
    have hearly : o.endTime ≤ e.now := h.done_iff.mp hdone
    have hclocks : e.now ≤ e'.now := now_le_now hclock h.made h'.made hlength
    exact h'.done_iff.mpr (hend ▸ Timestamp.le_trans hearly hclocks)
  · intro origin front e o origin' front' e' o' h h' hname
    obtain ⟨request, started, hlatest⟩ := h.origin
    obtain ⟨request', started', hlatest'⟩ := h'.origin
    refine eq_of_returned hwaits (hlatest.made.trans h.made) (hlatest'.made.trans h'.made) ?_
    rw [hlatest.returned, hlatest'.returned, hname]
  · rintro origin request started front later name hmade hlater rfl hlost
    have hnone := not_found_again hwaits hmade hlost later hlater
    refine ⟨hnone, ?_⟩
    intro e he
    refine ⟨?_, ?_⟩
    · intro o ho
      exact not_shown_again hwaits (hmade.trans (List.prefix_append ..)) hnone he ho
    · rintro now rfl
      show Reply.polled ((after (front ++ later)).get _ now) = _
      rw [Registry.get, hnone]

/-- The run of an operation that takes a second: it is waited for, polled before and after it is
done, forgotten and polled again. -/
def briefRun (t u : Timestamp) : List Event :=
  [.wait ⟨some u, none, none, some ⟨"hi"⟩⟩ t, .poll (nameOf 1) t, .poll (nameOf 1) u, .cleanup 0 u,
    .poll (nameOf 1) u]

theorem origin_briefRun {t u : Timestamp} {origin front : List Event} {e : Event} {o : Operation}
    (h : Shown (briefRun t u) origin front e o) : origin = [] := by
  obtain ⟨request, started, hmade⟩ := h.exists_wait
  cases origin with
  | nil => rfl
  | cons first origin =>
    -- the run begins with its only wait
    obtain ⟨rfl, hrest⟩ := List.cons_prefix_cons.mp hmade
    have hmem := hrest.subset (List.mem_append_right _ (List.mem_singleton_self _))
    simp at hmem

theorem operations_run_their_course_briefly :
    ∃ (t u : Timestamp) (o o' : Operation), ((briefRun t u).map Event.now).Pairwise (· ≤ ·) ∧
      Shown (briefRun t u) [] [] (.wait ⟨some u, none, none, some ⟨"hi"⟩⟩ t) o ∧
      Shown (briefRun t u) [] ((briefRun t u).take 2) (.poll (nameOf 1) u) o' ∧
      o.name = o'.name ∧ o.endTime = o'.endTime ∧ o.done = false ∧ o'.done = true ∧
      reply ((briefRun t u).take 4) (.poll (nameOf 1) u) =
        .polled (.error (unknownName (nameOf 1))) := by
  let t : Timestamp := ⟨0, 0, by decide, by decide, by decide⟩
  let u : Timestamp := ⟨1, 0, by decide, by decide, by decide⟩
  let request : WaitRequest := ⟨some u, none, none, some ⟨"hi"⟩⟩
  let pending : PendingOperation := ⟨u, request⟩
  have hclock : ((briefRun t u).map Event.now).Pairwise (· ≤ ·) := by decide
  obtain ⟨hseen, hagree, hgone⟩ := operations_run_their_course (briefRun t u) hclock
  have hshown (front : List Event) (e : Event) (o : Operation) (h : front ++ [e] <+: briefRun t u)
      (hs : (reply front e).snapshot? = some o) : Shown (briefRun t u) [] front e o := by
    obtain ⟨origin, hshown, -⟩ := hseen front e o h hs
    exact origin_briefRun hshown ▸ hshown
  have hfirst := hshown [] (.wait request t) (pending.snapshot (nameOf 1) t) ⟨_, rfl⟩ rfl
  have hlast := hshown ((briefRun t u).take 2) (.poll (nameOf 1) u)
    (pending.snapshot (nameOf 1) u) ⟨_, rfl⟩ rfl
  obtain ⟨-, -, hpair⟩ := hagree _ _ _ _ hfirst
  obtain ⟨hname, hend, -, -⟩ := hpair _ _ _ hlast
  have hlost : (after ((briefRun t u).take 4)).find? (nameOf 1) = none := by decide +kernel
  have hnone := ((hgone (by decide)).2 [] request t ((briefRun t u).take 4) [] (nameOf 1)
    ⟨_, rfl⟩ ⟨_, rfl⟩ rfl hlost).2 (.poll (nameOf 1) u) List.prefix_rfl
  exact ⟨t, u, _, _, hclock, hfirst, hlast, hname, hend, by decide,
    (hagree _ _ _ _ hlast).1.mpr (Timestamp.le_refl u), hnone.2 u rfl⟩

end Registry
end EchoServer
