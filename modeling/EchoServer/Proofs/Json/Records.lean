import EchoServer.Proofs.Json.Values

namespace EchoServer.Json

/-- The members of a name are those of the value, with their drafts. -/
theorem map_membersNamed (name : String) (members : List (String × Json)) :
    (membersNamed name (Draft.ofMembers members)).map (·.1) =
      (members.filter (·.1 = name)).map fun m => .ofJson m.2 := by
  -- the positions do not matter, so the count may start anywhere
  have hpick (pick : (Key × Draft) × Nat → Option (Draft × Nat))
      (hname : ∀ s d i, pick ((.name s, d), i) = if s = name then some (d, i) else none) (i : Nat) :
      (((Draft.ofMembers members).zipIdx i).filterMap pick).map (·.1) =
        (members.filter (·.1 = name)).map fun m => .ofJson m.2 := by
    induction members generalizing i with
    | nil => rfl
    | cons m members ih =>
      obtain ⟨k, v⟩ := m
      by_cases hk : k = name
      · simp [Draft.ofMembers, List.zipIdx_cons, hname, hk, ih (i + 1)]
      · simp [Draft.ofMembers, List.zipIdx_cons, hname, hk, ih (i + 1)]
  exact hpick _ (fun s d i => rfl) 0

/-- A field that is there once is its value. -/
theorem field_of_present {α : Type} (name : String) (item : Decoder α) (absent : Record.Absent α)
    (p : Place) (members : List (String × Json)) (v : Json) (a : α)
    (h : members.filter (·.1 = name) = [(name, v)]) (hv : item p (.ofJson v) = .ok a) :
    (Record.field name item absent).ofMembers p (Draft.ofMembers members) = .ok a := by
  have hm := map_membersNamed name members
  rw [h] at hm
  cases hl : membersNamed name (Draft.ofMembers members) with
  | nil => simp [hl] at hm
  | cons x more =>
    obtain ⟨hx, hmore⟩ : x.1 = .ofJson v ∧ more = [] := by simpa [hl] using hm
    simp only [Record.field, hl, hmore, hx, hv]

theorem field_of_absent {α : Type} (name : String) (item : Decoder α) (absent : Record.Absent α)
    (p : Place) (members : List (String × Json)) (a : α)
    (h : members.filter (·.1 = name) = []) (ha : absent.member = some a) :
    (Record.field name item absent).ofMembers p (Draft.ofMembers members) = .ok a := by
  have hm := map_membersNamed name members
  rw [h] at hm
  have hl : membersNamed name (Draft.ofMembers members) = [] := by simpa using hm
  simp only [Record.field, hl, ha]

theorem both_ofMembers {α β : Type} (r : Record α) (s : Record β) (p : Place)
    (members : List (Key × Draft)) (a : α) (b : β) (hr : r.ofMembers p members = .ok a)
    (hs : s.ofMembers p members = .ok b) : (r.both s).ofMembers p members = .ok (a, b) := by
  simp only [Record.both, hr, hs, Located.both]

theorem map_ofMembers {α β : Type} (f : α → β) (r : Record α) (p : Place)
    (members : List (Key × Draft)) (a : α) (hr : r.ofMembers p members = .ok a) :
    (r.map f).ofMembers p members = .ok (f a) := by
  simp only [Record.map, hr, Except.map]

theorem strayError_ofMembers (names : List String) (members : List (String × Json)) (i : Nat) :
    strayError names (Draft.ofMembers members) i = .ok () := by
  induction members generalizing i with
  | nil => rfl
  | cons m members ih =>
    obtain ⟨k, v⟩ := m
    simp [Draft.ofMembers, strayError, skipError_ofJson, ih (i + 1)]

/-- A record is read from an object whose members spell its fields. -/
theorem decodeMembers_ofMembers {α : Type} (r : Record α) (p : Place)
    (members : List (String × Json)) (a : α)
    (h : r.ofMembers p (Draft.ofMembers members) = .ok a) :
    r.decodeMembers p (Draft.ofMembers members) none = .ok a := by
  simp only [Record.decodeMembers, strayError_ofMembers, checkStop, Located.at, Located.both, h]

theorem decoder_object {α : Type} (name : String) (r : Record α) (p q : Place)
    (members : List (String × Json)) (a : α) (hq : p.enter = .ok q)
    (h : r.ofMembers q (Draft.ofMembers members) = .ok a) :
    r.decoder name p (.ofJson (.object members)) = .ok a := by
  rw [Draft.ofJson, Record.decoder]
  simp [hq, bind, Except.bind, decodeMembers_ofMembers r q members a h]

theorem list_map {α β : Type} (item : Decoder β) (p q : Place) (spell : α → Json) (get : α → β)
    (as : List α) (hq : p.enter = .ok q)
    (h : ∀ a ∈ as, item q (.ofJson (spell a)) = .ok (get a)) :
    Decoder.list item p (.ofJson (.array (as.map spell))) = .ok (as.map get) := by
  have hitems : Decoder.items item q (Draft.ofItems (as.map spell)) = .ok (as.map get) := by
    clear hq
    induction as with
    | nil => rfl
    | cons a as ih =>
      simp [Draft.ofItems, Decoder.items, h a (by simp), ih fun b hb => h b (by simp [hb]), bind,
        Except.bind, pure, Except.pure]
  rw [Draft.ofJson, Decoder.list]
  simp [hq, hitems, bind, Except.bind, checkStop, pure, Except.pure]

theorem pair_array {α β : Type} (first : Decoder α) (second : Decoder β) (p q : Place)
    (v w : Json) (a : α) (b : β) (hq : p.enter = .ok q) (hv : first q (.ofJson v) = .ok a)
    (hw : second q (.ofJson w) = .ok b) :
    Decoder.pair first second p (.ofJson (.array [v, w])) = .ok (a, b) := by
  have hend : checkSurplus q 2 [Draft.ofJson v, Draft.ofJson w] none = .ok () := by
    cases ho : q.origin <;> simp [checkSurplus, ho]
  simp [Draft.ofJson, Draft.ofItems, Decoder.pair, hq, hv, hw, hend, bind, Except.bind, pure,
    Except.pure]

/-- Behind the tag, the members of an object are kept as they come. -/
theorem tagOfMembers_ofMembers (variants : List String) (p : Place) (tag : String)
    (others : List (Key × Draft)) (members : List (String × Json))
    (hfits : p.Fits (depthMembers members)) (h : ∀ m ∈ members, m.1 ≠ "type") :
    Decoder.tagOfMembers variants p (some tag) others (Draft.ofMembers members) =
      .ok (some tag, others.reverse ++ Draft.ofMembers members) := by
  induction members generalizing others with
  | nil => simp [Draft.ofMembers, Decoder.tagOfMembers]
  | cons m members ih =>
    obtain ⟨k, v⟩ := m
    have hk : k ≠ "type" := h (k, v) (by simp)
    have hv := json_ofJson v p (hfits.of_le (Nat.le_max_left _ _))
    have hrest := ih ((.name k, .ofJson v) :: others) (hfits.of_le (Nat.le_max_right _ _))
      fun n hn => h n (by simp [hn])
    simp [Draft.ofMembers, Decoder.tagOfMembers, Decoder.key, Decoder.buffered, hk, hv, hrest,
      bind, Except.bind, pure, Except.pure]

/-- The tag of an object may stand anywhere; the other members are kept in their order. -/
theorem tagOfMembers_append {variants : List String} {p : Place} {kind : String}
    (front back : List (String × Json)) (others : List (Key × Draft)) (hkind : kind ∈ variants)
    (hfits : p.Fits (depthMembers (front ++ back))) (h : ∀ m ∈ front ++ back, m.1 ≠ "type") :
    Decoder.tagOfMembers variants p none others
        (Draft.ofMembers (front ++ ("type", .string kind) :: back)) =
      .ok (some kind, others.reverse ++ Draft.ofMembers (front ++ back)) := by
  induction front generalizing others with
  | nil =>
    have hrest := tagOfMembers_ofMembers variants p kind others back hfits h
    simp [Draft.ofMembers, Draft.ofJson, Decoder.tagOfMembers, Decoder.key, Decoder.variantTag,
      Decoder.variantName, hkind, hrest, bind, Except.bind]
  | cons m front ih =>
    obtain ⟨k, v⟩ := m
    have hk : k ≠ "type" := h (k, v) (List.mem_cons_self ..)
    have hv := json_ofJson v p (hfits.of_le (Nat.le_max_left _ _))
    have hrest := ih ((.name k, .ofJson v) :: others) (hfits.of_le (Nat.le_max_right _ _))
      fun n hn => h n (List.mem_cons_of_mem _ hn)
    simp [Draft.ofMembers, Decoder.tagOfMembers, Decoder.key, Decoder.buffered, hk, hv, hrest,
      bind, Except.bind, pure, Except.pure]

/-- A variant that names itself in any member is read from the other members. -/
theorem tagged_append {α : Type} (typeName : String) (variants : List String)
    (content : String → Draft → Except DecodeError α) (p : Place) (kind : String)
    (front back : List (String × Json)) (hkind : kind ∈ variants)
    (hfits : p.Fits (depthMembers (front ++ back) + 1)) (h : ∀ m ∈ front ++ back, m.1 ≠ "type") :
    Decoder.tagged typeName variants content p
        (.ofJson (.object (front ++ ("type", .string kind) :: back))) =
      content kind (.object (Draft.ofMembers (front ++ back)) none) := by
  obtain ⟨q, hq, -, hfits'⟩ := Place.Fits.enter hfits
  have hothers := tagOfMembers_append front back [] hkind hfits' h
  simp [Draft.ofJson, Decoder.tagged, hq, hothers, checkStop, bind, Except.bind]

/-- A variant that names itself in the first member is read from the other members. -/
theorem tagged_object {α : Type} (typeName : String) (variants : List String)
    (content : String → Draft → Except DecodeError α) (p : Place) (kind : String)
    (members : List (String × Json)) (hkind : kind ∈ variants)
    (hfits : p.Fits (depthMembers members + 1)) (h : ∀ m ∈ members, m.1 ≠ "type") :
    Decoder.tagged typeName variants content p
        (.ofJson (.object (("type", .string kind) :: members))) =
      content kind (.object (Draft.ofMembers members) none) :=
  tagged_append typeName variants content p kind [] members hkind hfits h

/-- A variant is read from the content of the only member, which has its name. -/
theorem variant_object {α : Type} (variants : List String)
    (content : String → Place → Option Draft → Except DecodeError α) (p q : Place) (name : String)
    (v : Json) (a : α) (hname : name ∈ variants) (hq : p.enter = .ok q)
    (hv : content name q (some (.ofJson v)) = .ok a) :
    Decoder.variant variants content p (.ofJson (.object [(name, v)])) = .ok a := by
  simp only [Draft.ofJson, Draft.ofMembers, Decoder.variant, hq, bind, Except.bind]
  split <;> simp [Decoder.variantKey, Decoder.variantName, Decoder.checkVariantEnd, hname, hv]

end EchoServer.Json
