import EchoServer.Proofs.Json.Stored

namespace EchoServer.Json

/-- What the decoder makes of a draft of at most some depth has a property for that depth. -/
def Decoder.Gives {α : Type} (item : Decoder α) (P : Nat → α → Prop) : Prop :=
  ∀ (n : Nat) (p : Place) (d : Draft) (a : α), d.depth ≤ n → item p d = .ok a → P n a

/-- What the record makes of parts of at most some depth has a property for that depth. -/
structure Record.Gives {α : Type} (r : Record α) (P : Nat → α → Prop) : Prop where
  members : ∀ (n : Nat) (p : Place) (members : List (Key × Draft)) (a : α),
    Draft.depthMembers members ≤ n → r.ofMembers p members = .ok a → P n a
  items : ∀ (n : Nat) (p : Place) (e : Expectation) (i : Nat) (items : List Draft)
    (stop : Option Fault) (a : α),
    Draft.depthItems items ≤ n → r.ofItems p e i items stop = .ok a → P n a

section
variable {α β : Type} {P : Nat → α → Prop} {Q : Nat → β → Prop}

theorem gives_anything (item : Decoder α) : item.Gives fun _ _ => True :=
  fun _ _ _ _ _ _ => trivial

theorem gives_json : Decoder.Gives Decoder.json fun n v => v.canonical = v ∧ v.depth ≤ n := by
  intro n p d v hd h
  obtain ⟨hstored, hdepth⟩ := stored_of_json d p v h
  exact ⟨hstored, Nat.le_trans hdepth hd⟩

theorem gives_optional {item : Decoder α} (h : item.Gives P) :
    (Decoder.optional item).Gives fun n o => ∀ a, o = some a → P n a := by
  intro n p d o hd ho a ha
  subst ha
  unfold Decoder.optional at ho
  split at ho
  · cases ho
  · obtain ⟨b, hb, hpure⟩ := exists_of_bind_ok ho
    obtain rfl : b = a := by simpa [pure, Except.pure] using hpure
    exact h n p d b hd hb

theorem forall_of_items {item : Decoder α} (h : item.Gives P) (n : Nat) (p : Place)
    (ds : List Draft) (as : List α) (hdepth : Draft.depthItems ds ≤ n)
    (has : Decoder.items item p ds = .ok as) : ∀ a ∈ as, P n a := by
  induction ds generalizing as with
  | nil =>
    obtain rfl := Except.ok.inj has
    simp
  | cons d ds ih =>
    rw [Decoder.items] at has
    obtain ⟨a, ha, has⟩ := exists_of_bind_ok has
    obtain ⟨more, hmore, hpure⟩ := exists_of_bind_ok has
    obtain rfl := Except.ok.inj hpure
    rw [Draft.depthItems] at hdepth
    exact List.forall_mem_cons.mpr ⟨h n p d a (by omega) ha, ih more (by omega) hmore⟩

theorem gives_list {item : Decoder α} (h : item.Gives P) :
    (Decoder.list item).Gives fun n as => ∃ m, n = m + 1 ∧ ∀ a ∈ as, P m a := by
  intro n p d as hd has
  unfold Decoder.list at has
  split at has
  · rename_i ds stop
    obtain ⟨q, -, has⟩ := exists_of_bind_ok has
    obtain ⟨bs, hbs, has⟩ := exists_of_bind_ok has
    obtain ⟨-, -, hpure⟩ := exists_of_bind_ok has
    obtain rfl := Except.ok.inj hpure
    rw [Draft.depth] at hd
    exact ⟨n - 1, by omega, forall_of_items h (n - 1) q ds bs (by omega) hbs⟩
  · cases has

/-- What is found under a name stands among the members. -/
theorem mem_of_membersNamed {name : String} {members : List (Key × Draft)} {d : Draft} {i : Nat}
    (h : (d, i) ∈ membersNamed name members) : ∃ k, (k, d) ∈ members := by
  obtain ⟨⟨⟨k, d'⟩, j⟩, hj, hpick⟩ := List.mem_filterMap.mp h
  have hin : (k, d') ∈ members := List.fst_mem_of_mem_zipIdx hj
  cases k with
  | name s =>
    by_cases hs : s = name
    · simp only [hs, if_true, Option.some.injEq, Prod.mk.injEq] at hpick
      exact ⟨_, hpick.1 ▸ hin⟩
    · simp [hs] at hpick
  | flawed e => cases hpick
  | misplaced => cases hpick

/-- A field is what stands for it, or what it is if nothing does. -/
theorem gives_field {item : Decoder α} (name : String) (absent : Record.Absent α)
    (h : item.Gives P)
    (habsent : ∀ a, absent.member = some a ∨ absent.item = some a → ∀ n, P n a) :
    (Record.field name item absent).Gives P := by
  constructor
  · intro n p members a hdepth ha
    simp only [Record.field] at ha
    cases hnamed : membersNamed name members with
    | nil =>
      cases hmember : absent.member with
      | none => simp [hnamed, hmember] at ha
      | some b =>
        obtain rfl : b = a := by simpa [hnamed, hmember] using ha
        exact habsent b (Or.inl hmember) n
    | cons x more =>
      obtain ⟨d, i⟩ := x
      have hmem : (d, i) ∈ membersNamed name members := hnamed ▸ List.mem_cons_self ..
      obtain ⟨k, hin⟩ := mem_of_membersNamed hmem
      cases hd : item p d with
      | error e => simp [hnamed, hd] at ha
      | ok b =>
        cases more with
        | cons y rest => simp [hnamed, hd] at ha
        | nil =>
          obtain rfl : b = a := by simpa [hnamed, hd] using ha
          exact h n p d b ((Draft.depthMembers_le_iff members n).mp hdepth _ hin) hd
  · intro n p e i items stop a hdepth ha
    simp only [Record.field] at ha
    split at ha
    · rename_i d hd
      exact h n p d a ((Draft.depthItems_le_iff items n).mp hdepth d (List.mem_of_getElem? hd)) ha
    · obtain ⟨-, -, ha⟩ := exists_of_bind_ok ha
      split at ha
      · rename_i b hb
        obtain rfl : b = a := by simpa using ha
        exact habsent b (Or.inr hb) n
      · cases ha

theorem ok_of_located_both {x : Located α} {y : Located β} {c : α × β} (h : x.both y = .ok c) :
    x = .ok c.1 ∧ y = .ok c.2 := by
  unfold Located.both at h
  split at h
  · obtain rfl := Except.ok.inj h
    exact ⟨rfl, rfl⟩
  all_goals cases h

theorem gives_both {r : Record α} {s : Record β} (hr : r.Gives P) (hs : s.Gives Q) :
    (r.both s).Gives fun n c => P n c.1 ∧ Q n c.2 := by
  constructor
  · intro n p members c hdepth hc
    obtain ⟨ha, hb⟩ := ok_of_located_both hc
    exact ⟨hr.members n p members _ hdepth ha, hs.members n p members _ hdepth hb⟩
  · intro n p e i items stop c hdepth hc
    obtain ⟨a, ha, hc⟩ := exists_of_bind_ok hc
    obtain ⟨b, hb, hc⟩ := exists_of_bind_ok hc
    obtain rfl := Except.ok.inj hc
    exact ⟨hr.items n p e _ items stop a hdepth ha, hs.items n p e _ items stop b hdepth hb⟩

theorem gives_map {f : α → β} {r : Record α} (h : r.Gives fun n a => Q n (f a)) :
    (r.map f).Gives Q := by
  constructor
  · intro n p members b hdepth hb
    obtain ⟨a, ha, rfl⟩ := exists_of_map_ok hb
    exact h.members n p members a hdepth ha
  · intro n p e i items stop b hdepth hb
    obtain ⟨a, ha, rfl⟩ := exists_of_map_ok hb
    exact h.items n p e i items stop a hdepth ha

theorem ok_of_decodeMembers {r : Record α} {p : Place} {members : List (Key × Draft)}
    {stop : Option Fault} {a : α} (h : r.decodeMembers p members stop = .ok a) :
    r.ofMembers p members = .ok a := by
  simp only [Record.decodeMembers] at h
  split at h
  · rename_i c hc
    obtain rfl := Except.ok.inj h
    exact (ok_of_located_both hc).2
  · cases h

theorem ok_of_decodeItems {r : Record α} {p : Place} {e : Expectation} {items : List Draft}
    {stop : Option Fault} {a : α} (h : r.decodeItems p e items stop = .ok a) :
    r.ofItems p e 0 items stop = .ok a := by
  obtain ⟨b, hb, h⟩ := exists_of_bind_ok h
  obtain ⟨-, -, h⟩ := exists_of_bind_ok h
  obtain rfl := Except.ok.inj h
  exact hb

/-- A record opens a container, and its fields stand in there. -/
theorem gives_decoder {r : Record α} (name : String) (h : r.Gives P) :
    (r.decoder name).Gives fun n a => ∃ m, n = m + 1 ∧ P m a := by
  intro n p d a hd ha
  unfold Record.decoder at ha
  split at ha
  · rename_i items stop
    obtain ⟨q, -, ha⟩ := exists_of_bind_ok ha
    rw [Draft.depth] at hd
    exact ⟨n - 1, by omega, h.items _ q _ 0 items stop a (by omega) (ok_of_decodeItems ha)⟩
  · rename_i members stop
    obtain ⟨q, -, ha⟩ := exists_of_bind_ok ha
    rw [Draft.depth] at hd
    exact ⟨n - 1, by omega, h.members _ q members a (by omega) (ok_of_decodeMembers ha)⟩
  · cases ha

/-- The content of a variant was opened already. -/
theorem given_by_variantRecord {r : Record α} (name : String) (h : r.Gives P) {n : Nat} {d : Draft}
    {a : α} (hd : d.depth ≤ n + 1) (ha : Decoder.variantRecord name r d = .ok a) : P n a := by
  unfold Decoder.variantRecord at ha
  split at ha
  · rename_i items stop
    rw [Draft.depth] at hd
    exact h.items n _ _ 0 items stop a (by omega) (ok_of_decodeItems ha)
  · rename_i members stop
    rw [Draft.depth] at hd
    exact h.members n _ members a (by omega) (ok_of_decodeMembers ha)
  · cases ha

theorem Decoder.Gives.imp {item : Decoder α} {P' : Nat → α → Prop} (h : item.Gives P)
    (himp : ∀ n a, P n a → P' n a) : item.Gives P' :=
  fun n p d a hd ha => himp n a (h n p d a hd ha)

theorem Record.Gives.imp {r : Record α} {P' : Nat → α → Prop} (h : r.Gives P)
    (himp : ∀ n a, P n a → P' n a) : r.Gives P' :=
  ⟨fun n p members a hdepth ha => himp n a (h.members n p members a hdepth ha),
    fun n p e i items stop a hdepth ha => himp n a (h.items n p e i items stop a hdepth ha)⟩

/-- A field of which nothing is said. -/
theorem gives_any_field (name : String) (item : Decoder α) (absent : Record.Absent α) :
    (Record.field name item absent).Gives fun _ _ => True :=
  gives_field _ _ (gives_anything _) fun _ _ _ => trivial

end

end EchoServer.Json
