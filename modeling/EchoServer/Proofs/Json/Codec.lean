import EchoServer.Proofs.Json.RoundTrip
import EchoServer.Proofs.Json.Records
import EchoServer.Proofs.Json.Stored

namespace EchoServer.Json

/-- The decoder reads `a` from `v` wherever that fits, and from `v` in canonical order too. -/
def Decoder.ReadsBack {α : Type} (item : Decoder α) (v : Json) (a : α) : Prop :=
  ∀ p : Place, p.Fits v.depth →
    item p (.ofJson v) = .ok a ∧ item p (.ofJson v.canonical) = .ok a

/-- Under a name, the members of an object are as they are spelled, or in canonical order. -/
def SameUnder (name : String) (members spelled : List (String × Json)) : Prop :=
  members.filter (·.1 = name) = spelled.filter (·.1 = name) ∨
    members.filter (·.1 = name) = canonicalMembers (spelled.filter (·.1 = name))

/-- The record reads `a` from any object that has these members under its names. -/
structure Record.ReadsBack {α : Type} (r : Record α) (spelled : List (String × Json)) (a : α) :
    Prop where
  names : ∀ m ∈ spelled, m.1 ∈ r.names
  nodup : (spelled.map (·.1)).Nodup
  read : ∀ (p : Place) (members : List (String × Json)), p.Fits (depthMembers spelled) →
    (∀ name ∈ r.names, SameUnder name members spelled) →
    r.ofMembers p (Draft.ofMembers members) = .ok a

section
variable {key name : String} {value : Json} {members : List (String × Json)}

/-- A new member stands alone under its key, and changes nothing under other names. -/
theorem filter_insertMember (hnew : ∀ m ∈ members, m.1 ≠ key) :
    (insertMember key value members).filter (·.1 = name) =
      members.filter (·.1 = name) ++ [(key, value)].filter (·.1 = name) := by
  induction members with
  | nil => rfl
  | cons first rest ih =>
    obtain ⟨k, v⟩ := first
    have hk : k ≠ key := hnew (k, v) (List.mem_cons_self ..)
    have hrest : ∀ m ∈ rest, m.1 ≠ key := fun m hm => hnew m (List.mem_cons_of_mem _ hm)
    unfold insertMember
    split
    · by_cases hname : key = name
      · -- nothing else has that name
        have hnone : ((k, v) :: rest).filter (·.1 = name) = [] := by
          refine List.filter_eq_nil_iff.mpr fun m hm => ?_
          simpa [← hname] using hnew m hm
        rw [List.filter_cons_of_pos (by simpa using hname), hnone]
        simp [hname]
      · rw [List.filter_cons_of_neg (by simpa using hname)]
        simp [hname]
    · rw [if_neg (Ne.symm hk), List.filter_cons, List.filter_cons, ih hrest]
      split <;> rfl

theorem fst_mem_insertMember {m : String × Json} (h : m ∈ insertMember key value members) :
    m.1 = key ∨ m ∈ members := by
  rcases mem_insertMember h with rfl | hmem
  · exact Or.inl rfl
  · exact Or.inr hmem

end

/-- Members with different keys are found under them also when they are put in order. -/
theorem filter_ofMembers (members : List (String × Json)) (hnodup : (members.map (·.1)).Nodup) :
    ∃ stored, ofMembers members = .object stored ∧
      ∀ name, stored.filter (·.1 = name) = members.filter (·.1 = name) := by
  -- one by one: each key is new when its member is put in
  have hfold (acc : List (String × Json)) (hnew : ∀ m ∈ members, ∀ n ∈ acc, n.1 ≠ m.1)
      (name : String) :
      (members.foldl (fun acc m => insertMember m.1 m.2 acc) acc).filter (·.1 = name) =
        acc.filter (·.1 = name) ++ members.filter (·.1 = name) := by
    induction members generalizing acc with
    | nil => simp
    | cons first rest ih =>
      obtain ⟨hfirst, hrest⟩ := List.nodup_cons.mp hnodup
      have hstep : (insertMember first.1 first.2 acc).filter (·.1 = name) =
          acc.filter (·.1 = name) ++ [first].filter (·.1 = name) :=
        filter_insertMember (hnew first (List.mem_cons_self ..))
      rw [List.foldl_cons, ih hrest, hstep, List.append_assoc, ← List.filter_append]
      · rfl
      · intro m hm n hn heq
        rcases fst_mem_insertMember hn with hkey | hold
        · exact hfirst (List.mem_map.mpr ⟨m, hm, heq.symm.trans hkey⟩)
        · exact hnew m (List.mem_cons_of_mem _ hm) n hold heq
  exact ⟨_, rfl, fun name => by simpa using hfold [] (by simp) name⟩

theorem map_fst_canonicalMembers (members : List (String × Json)) :
    (canonicalMembers members).map (·.1) = members.map (·.1) := by
  induction members with
  | nil => rfl
  | cons m rest ih => rw [canonicalMembers, List.map_cons, List.map_cons, ih]

theorem filter_canonicalMembers (name : String) (members : List (String × Json)) :
    (canonicalMembers members).filter (·.1 = name) =
      canonicalMembers (members.filter (·.1 = name)) := by
  induction members with
  | nil => rfl
  | cons m rest ih =>
    rw [canonicalMembers, List.filter_cons, List.filter_cons, ih]
    split <;> rfl

section
variable {α β γ : Type} {item : Decoder α}

theorem readsBack_leaf {v : Json} {a : α} (hv : v.canonical = v)
    (h : ∀ p : Place, p.Fits v.depth → item p (.ofJson v) = .ok a) : item.ReadsBack v a := by
  intro p hp
  rw [hv]
  exact ⟨h p hp, h p hp⟩

theorem readsBack_string (s : String) : Decoder.ReadsBack Decoder.string (.string s) s :=
  readsBack_leaf rfl fun _ _ => rfl

theorem readsBack_bool (b : Bool) : Decoder.ReadsBack Decoder.bool (.bool b) b :=
  readsBack_leaf rfl fun _ _ => rfl

theorem readsBack_int32 (n : Int32) : Decoder.ReadsBack Decoder.int32 (.int32 n) n := by
  refine readsBack_leaf rfl ?_
  intro p _
  have hrange : -2147483648 ≤ n.toInt ∧ n.toInt < 2147483648 := ⟨n.le_toInt, n.toInt_lt⟩
  have hread : Decoder.int32 p (.ofJson (.int32 n)) = if -2147483648 ≤ n.toInt ∧
      n.toInt < 2147483648 then .ok (Int32.ofInt n.toInt)
    else .error (.wrongValue (.integer n.toInt) .int32) := rfl
  rw [hread, if_pos hrange, Int32.ofInt_toInt]

theorem readsBack_int64 (n : Int64) : Decoder.ReadsBack Decoder.int64 (.int64 n) n := by
  refine readsBack_leaf rfl ?_
  intro p _
  have hread : Decoder.int64 p (.ofJson (.int64 n)) = if n.toInt < 9223372036854775808 then
      .ok (Int64.ofInt n.toInt) else .error (.wrongValue (.integer n.toInt) .int64) := rfl
  have hrange : n.toInt < 9223372036854775808 := n.toInt_lt
  rw [hread, if_pos hrange, Int64.ofInt_toInt]

/-- An opaque value in canonical order is read as it is. -/
theorem readsBack_json {v : Json} (h : v.canonical = v) : Decoder.ReadsBack Decoder.json v v := by
  refine readsBack_leaf h ?_
  intro p hp
  rw [json_ofJson v p hp, h]

theorem map_canonicalItems {spell : α → Json} (as : List α) :
    canonicalItems (as.map spell) = as.map fun a => (spell a).canonical := by
  induction as with
  | nil => rfl
  | cons a as ih => rw [List.map_cons, canonicalItems, ih, List.map_cons]

theorem readsBack_list {spell : α → Json} (as : List α)
    (h : ∀ a ∈ as, item.ReadsBack (spell a) a) :
    (Decoder.list item).ReadsBack (.array (as.map spell)) as := by
  intro p hp
  obtain ⟨q, hq, -, hfits⟩ := Place.Fits.enter (d := depthItems (as.map spell)) hp
  have hitem (a : α) (ha : a ∈ as) : q.Fits (spell a).depth :=
    hfits.of_le ((depthItems_le_iff _ _).mp (Nat.le_refl _) _ (List.mem_map_of_mem ha))
  have hwritten := list_map item p q spell id as hq fun a ha => (h a ha q (hitem a ha)).1
  have hordered := list_map item p q (fun a => (spell a).canonical) id as hq
    fun a ha => (h a ha q (hitem a ha)).2
  rw [List.map_id] at hwritten hordered
  rw [canonical, map_canonicalItems]
  exact ⟨hwritten, hordered⟩

theorem readsBack_pair {second : Decoder β} {v w : Json} {a : α} {b : β}
    (hv : item.ReadsBack v a) (hw : second.ReadsBack w b) :
    (Decoder.pair item second).ReadsBack (.array [v, w]) (a, b) := by
  intro p hp
  obtain ⟨q, hq, -, hfits⟩ := Place.Fits.enter (d := depthItems [v, w]) hp
  have hv' := hv q (hfits.of_le (Nat.le_max_left _ _))
  have hw' := hw q (hfits.of_le (Nat.le_trans (Nat.le_max_left _ 0) (Nat.le_max_right _ _)))
  exact ⟨pair_array item second p q v w a b hq hv'.1 hw'.1,
    pair_array item second p q _ _ a b hq hv'.2 hw'.2⟩

theorem ofJson_eq_null {v : Json} (h : Draft.ofJson v = .null) : v = .null := by
  cases v with
  | null => rfl
  | bool b => cases h
  | number n => cases h
  | string s => cases h
  | array items => cases h
  | object members => cases h

theorem canonical_eq_null {v : Json} (h : v.canonical = .null) : v = .null := by
  cases v with
  | null => rfl
  | bool b => cases h
  | number n => cases h
  | string s => cases h
  | array items => cases h
  | object members => cases h

theorem object_ne_null (members : List (String × Json)) : Json.object members ≠ .null := by
  rintro ⟨⟩

theorem string_ne_null (s : String) : Json.string s ≠ .null := by
  rintro ⟨⟩

theorem optional_of_ne_null {p : Place} {d : Draft} {a : α} (hd : d ≠ .null)
    (h : item p d = .ok a) : Decoder.optional item p d = .ok (some a) := by
  unfold Decoder.optional
  split
  · exact absurd rfl hd
  · rw [h]
    rfl

theorem readsBack_optional {v : Json} {a : α} (hv : v ≠ .null) (h : item.ReadsBack v a) :
    (Decoder.optional item).ReadsBack v (some a) := by
  intro p hp
  refine ⟨optional_of_ne_null ?_ (h p hp).1, optional_of_ne_null ?_ (h p hp).2⟩
  · exact fun hnull => hv (ofJson_eq_null hnull)
  · exact fun hnull => hv (canonical_eq_null (ofJson_eq_null hnull))

/-- A field is read from the only member of its name. -/
theorem readsBack_field {v : Json} {a : α} (name : String) (absent : Record.Absent α)
    (h : item.ReadsBack v a) : (Record.field name item absent).ReadsBack [(name, v)] a := by
  refine ⟨fun m hm => ?_, List.nodup_singleton _, fun p members hp hsame => ?_⟩
  · rw [List.mem_singleton.mp hm]
    exact List.mem_singleton_self _
  · have hv := h p (hp.of_le (Nat.le_max_left _ _))
    have hone : [(name, v)].filter (·.1 = name) = [(name, v)] := by simp
    rcases hsame name (List.mem_singleton_self _) with hwritten | hordered
    · rw [hone] at hwritten
      exact field_of_present name item absent p members v a hwritten hv.1
    · rw [hone] at hordered
      exact field_of_present name item absent p members v.canonical a hordered hv.2

/-- A field that is left out is what it is if nothing is said of it. -/
theorem readsBack_absent {a : α} (name : String) {absent : Record.Absent α}
    (h : absent.member = some a) : (Record.field name item absent).ReadsBack [] a := by
  refine ⟨fun m hm => (List.not_mem_nil hm).elim, List.nodup_nil, fun p members _ hsame => ?_⟩
  have hnone : members.filter (·.1 = name) = [] := by
    rcases hsame name (List.mem_singleton_self _) with hwritten | hordered
    · exact hwritten
    · exact hordered
  exact field_of_absent name item absent p members a hnone h

/-- A field that is left out if there is nothing to say. -/
theorem readsBack_optionalMember {spell : α → Json} (name : String)
    (absent : Record.Absent (Option α)) (o : Option α) (habsent : absent.member = some none)
    (h : ∀ a, o = some a → spell a ≠ .null ∧ item.ReadsBack (spell a) a) :
    (Record.field name (Decoder.optional item) absent).ReadsBack
      (optionalMember name (o.map spell)) o := by
  cases o with
  | none => exact readsBack_absent name habsent
  | some a =>
    obtain ⟨hne, hread⟩ := h a rfl
    exact readsBack_field name absent (readsBack_optional hne hread)

theorem filter_eq_nil_of_names {spelled : List (String × Json)} {names : List String}
    {name : String} (h : ∀ m ∈ spelled, m.1 ∈ names) (hname : name ∉ names) :
    spelled.filter (·.1 = name) = [] := by
  refine List.filter_eq_nil_iff.mpr fun m hm heq => hname ?_
  have hsame : m.1 = name := by simpa using heq
  exact hsame ▸ h m hm

theorem depthMembers_append (ms ns : List (String × Json)) :
    depthMembers (ms ++ ns) = max (depthMembers ms) (depthMembers ns) := by
  induction ms with
  | nil => simp [depthMembers]
  | cons m ms ih => rw [List.cons_append, depthMembers, depthMembers, ih, Nat.max_assoc]

theorem readsBack_both {r : Record α} {s : Record β} {ms ns : List (String × Json)} {a : α} {b : β}
    (hr : r.ReadsBack ms a) (hs : s.ReadsBack ns b)
    (hdisjoint : ∀ name ∈ r.names, name ∉ s.names) :
    (r.both s).ReadsBack (ms ++ ns) (a, b) := by
  refine ⟨?_, ?_, fun p members hp hsame => ?_⟩
  · intro m hm
    rcases List.mem_append.mp hm with hm | hm
    · exact List.mem_append_left _ (hr.names m hm)
    · exact List.mem_append_right _ (hs.names m hm)
  · rw [List.map_append, List.nodup_append]
    refine ⟨hr.nodup, hs.nodup, ?_⟩
    rintro key hkey _ hkey' rfl
    obtain ⟨m, hm, hmkey⟩ := List.mem_map.mp hkey
    obtain ⟨n, hn, hnkey⟩ := List.mem_map.mp hkey'
    exact hdisjoint key (hmkey ▸ hr.names m hm) (hnkey ▸ hs.names n hn)
  -- under its own names, each of the two finds its own members and none of the other
  · rw [depthMembers_append] at hp
    refine both_ofMembers r s p _ a b ?_ ?_
    · refine hr.read p members (hp.of_le (Nat.le_max_left _ _)) fun name hname => ?_
      have hnone := filter_eq_nil_of_names hs.names (hdisjoint name hname)
      have hboth := hsame name (List.mem_append_left _ hname)
      rwa [SameUnder, List.filter_append, hnone, List.append_nil] at hboth
    · refine hs.read p members (hp.of_le (Nat.le_max_right _ _)) fun name hname => ?_
      have hnone := filter_eq_nil_of_names hr.names fun hin => hdisjoint name hin hname
      have hboth := hsame name (List.mem_append_right _ hname)
      rwa [SameUnder, List.filter_append, hnone, List.nil_append] at hboth

theorem readsBack_map {r : Record α} {spelled : List (String × Json)} {a : α} (f : α → γ)
    (h : r.ReadsBack spelled a) : (r.map f).ReadsBack spelled (f a) :=
  ⟨h.names, h.nodup, fun p members hp hsame =>
    map_ofMembers f r p _ a (h.read p members hp hsame)⟩

/-- A record is read from the object of its members, in whatever order they come. -/
theorem readsBack_decoder {r : Record α} {spelled : List (String × Json)} {a : α} (name : String)
    (h : r.ReadsBack spelled a) : (r.decoder name).ReadsBack (.object spelled) a := by
  intro p hp
  obtain ⟨q, hq, -, hfits⟩ := Place.Fits.enter (d := depthMembers spelled) hp
  constructor
  · exact decoder_object name r p q spelled a hq
      (h.read q spelled hfits fun _ _ => Or.inl rfl)
  -- in order the members have other places, but under each name there are the same
  · obtain ⟨stored, hstored, hunder⟩ := filter_ofMembers (canonicalMembers spelled)
      (by rw [map_fst_canonicalMembers]; exact h.nodup)
    rw [canonical, hstored]
    refine decoder_object name r p q stored a hq (h.read q stored hfits fun name _ => Or.inr ?_)
    rw [hunder, filter_canonicalMembers]

theorem ofJson_of_readsBack {v : Json} {a : α} (h : item.ReadsBack v a) :
    item.ofJson v.canonical = .ok a :=
  (h .value fun horigin => by cases horigin).2

theorem reread_canonical_of_integersOnly {v : Json} (h : IntegersOnly v) :
    reread v.canonical = v.canonical := by
  rw [← canonical_reread, reread_of_integersOnly v h]

/-- A text is read back if it is not nested too deep, and all its numbers are integers. -/
theorem ofText_of_readsBack {v : Json} {a : α} (h : item.ReadsBack v a) (hints : IntegersOnly v)
    (hdepth : v.depth < 128) :
    item.ofText v.print = .ok a ∧ item.ofText v.canonical.print = .ok a := by
  have hboth := h .text fun _ => hdepth
  rw [ofText_print, ofText_print, reread_of_integersOnly v hints,
    reread_canonical_of_integersOnly hints]
  exact hboth

end
end EchoServer.Json
