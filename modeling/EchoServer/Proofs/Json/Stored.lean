import EchoServer.Proofs.Json.Values
import Mathlib.Data.String.Basic

namespace EchoServer.Json

/-- The keys of the members ascend. -/
def Ascending (members : List (String × Json)) : Prop :=
  members.Pairwise fun m n => m.1 < n.1

section
variable {key : String} {value : Json} {members : List (String × Json)}

theorem mem_insertMember {m : String × Json} (h : m ∈ insertMember key value members) :
    m = (key, value) ∨ m ∈ members := by
  induction members with
  | nil => exact Or.inl (by simpa [insertMember] using h)
  | cons first rest ih =>
    obtain ⟨k, v⟩ := first
    unfold insertMember at h
    split at h
    · exact (List.mem_cons.mp h).imp id id
    · split at h
      · exact (List.mem_cons.mp h).imp id (List.mem_cons_of_mem _)
      · rcases List.mem_cons.mp h with rfl | hrest
        · exact Or.inr (List.mem_cons_self ..)
        · exact (ih hrest).imp id (List.mem_cons_of_mem _)

theorem ascending_insertMember (h : Ascending members) :
    Ascending (insertMember key value members) := by
  induction members with
  | nil => exact List.pairwise_singleton _ _
  | cons first rest ih =>
    obtain ⟨k, v⟩ := first
    obtain ⟨hfirst, hrest⟩ := List.pairwise_cons.mp h
    unfold insertMember
    split
    · rename_i hlt
      refine List.pairwise_cons.mpr ⟨fun m hm => ?_, h⟩
      rcases List.mem_cons.mp hm with rfl | hm
      · exact hlt
      · exact lt_trans hlt (hfirst m hm)
    · rename_i hlt
      split
      · rename_i heq
        exact List.pairwise_cons.mpr ⟨heq ▸ hfirst, hrest⟩
      · rename_i hne
        have hgt : k < key := lt_of_le_of_ne (not_lt.mp hlt) (Ne.symm hne)
        refine List.pairwise_cons.mpr ⟨fun m hm => ?_, ih hrest⟩
        rcases mem_insertMember hm with rfl | hm
        · exact hgt
        · exact hfirst m hm

/-- A key behind all others comes last. -/
theorem insertMember_last (h : ∀ m ∈ members, m.1 < key) :
    insertMember key value members = members ++ [(key, value)] := by
  induction members with
  | nil => rfl
  | cons first rest ih =>
    obtain ⟨k, v⟩ := first
    have hk : k < key := h (k, v) (List.mem_cons_self ..)
    rw [insertMember, if_neg (not_lt.mpr hk.le), if_neg hk.ne',
      ih fun m hm => h m (List.mem_cons_of_mem _ hm), List.cons_append]

/-- Members whose keys ascend stay as they are. -/
theorem ofMembers_of_ascending (h : Ascending members) : ofMembers members = .object members := by
  -- every member comes behind those that are put in before it
  have hfold (acc : List (String × Json)) (hacc : Ascending (acc ++ members)) :
      members.foldl (fun acc m => insertMember m.1 m.2 acc) acc = acc ++ members := by
    clear h
    induction members generalizing acc with
    | nil => simp
    | cons first rest ih =>
      have hlast : ∀ m ∈ acc, m.1 < first.1 := fun m hm =>
        (List.pairwise_append.mp hacc).2.2 m hm first (List.mem_cons_self ..)
      rw [List.foldl_cons, insertMember_last hlast, ih _ (by simpa using hacc)]
      simp
  rw [ofMembers, hfold [] (by simpa using h), List.nil_append]

/-- The members of an object that is put together ascend, and are among those that it is put
together from. -/
theorem ofMembers_members (members : List (String × Json)) :
    ∃ stored, ofMembers members = .object stored ∧ Ascending stored ∧
      ∀ m ∈ stored, m ∈ members := by
  refine ⟨_, rfl, ?_, ?_⟩
  · have hfold (acc : List (String × Json)) (hacc : Ascending acc) :
        Ascending (members.foldl (fun acc m => insertMember m.1 m.2 acc) acc) := by
      induction members generalizing acc with
      | nil => exact hacc
      | cons first rest ih => exact ih _ (ascending_insertMember hacc)
    exact hfold [] List.Pairwise.nil
  · have hfold (acc : List (String × Json)) (m : String × Json)
        (hm : m ∈ members.foldl (fun acc m => insertMember m.1 m.2 acc) acc) :
        m ∈ acc ∨ m ∈ members := by
      induction members generalizing acc with
      | nil => exact Or.inl hm
      | cons first rest ih =>
        rcases ih _ hm with hacc | hrest
        · rcases mem_insertMember hacc with rfl | hacc
          · exact Or.inr (List.mem_cons_self ..)
          · exact Or.inl hacc
        · exact Or.inr (List.mem_cons_of_mem _ hrest)
    intro m hm
    exact (hfold [] m hm).resolve_left (by simp)

end

theorem canonicalItems_of_stored {items : List Json} (h : ∀ v ∈ items, v.canonical = v) :
    canonicalItems items = items := by
  induction items with
  | nil => rfl
  | cons v rest ih =>
    rw [canonicalItems, h v (List.mem_cons_self ..),
      ih fun w hw => h w (List.mem_cons_of_mem _ hw)]

theorem canonicalMembers_of_stored {members : List (String × Json)}
    (h : ∀ m ∈ members, m.2.canonical = m.2) : canonicalMembers members = members := by
  induction members with
  | nil => rfl
  | cons m rest ih =>
    obtain ⟨k, v⟩ := m
    have hv : v.canonical = v := h (k, v) (List.mem_cons_self ..)
    rw [canonicalMembers, hv, ih fun w hw => h w (List.mem_cons_of_mem _ hw)]

theorem canonical_ofMembers {members : List (String × Json)}
    (h : ∀ m ∈ members, m.2.canonical = m.2) :
    (ofMembers members).canonical = ofMembers members := by
  obtain ⟨stored, hstored, hascending, hmem⟩ := ofMembers_members members
  rw [hstored, canonical, canonicalMembers_of_stored fun m hm => h m (hmem m hm),
    ofMembers_of_ascending hascending]

namespace Draft

mutual

/-- How deep containers are nested in a draft. -/
def depth : Draft → Nat
  | .array items _ => depthItems items + 1
  | .object members _ => depthMembers members + 1
  | _ => 0

def depthItems : List Draft → Nat
  | [] => 0
  | d :: rest => max (depth d) (depthItems rest)

def depthMembers : List (Key × Draft) → Nat
  | [] => 0
  | (_, d) :: rest => max (depth d) (depthMembers rest)

end

mutual

theorem depth_ofJson (v : Json) : (ofJson v).depth = v.depth := by
  match v with
  | .null => rfl
  | .bool b => rfl
  | .number n => rfl
  | .string s => rfl
  | .array items => rw [ofJson, depth, Json.depth, depthItems_ofItems items]
  | .object members => rw [ofJson, depth, Json.depth, depthMembers_ofMembers members]

theorem depthItems_ofItems (items : List Json) :
    depthItems (ofItems items) = Json.depthItems items := by
  match items with
  | [] => rfl
  | v :: rest => rw [ofItems, depthItems, Json.depthItems, depth_ofJson v, depthItems_ofItems rest]

theorem depthMembers_ofMembers (members : List (String × Json)) :
    depthMembers (ofMembers members) = Json.depthMembers members := by
  match members with
  | [] => rfl
  | (k, v) :: rest =>
    rw [ofMembers, depthMembers, Json.depthMembers, depth_ofJson v, depthMembers_ofMembers rest]

end

theorem depthItems_le_iff (items : List Draft) (n : Nat) :
    depthItems items ≤ n ↔ ∀ d ∈ items, d.depth ≤ n := by
  induction items with
  | nil => simp [depthItems]
  | cons d rest ih => simp [depthItems, ih]

theorem depthMembers_le_iff (members : List (Key × Draft)) (n : Nat) :
    depthMembers members ≤ n ↔ ∀ m ∈ members, m.2.depth ≤ n := by
  induction members with
  | nil => simp [depthMembers]
  | cons m rest ih =>
    obtain ⟨k, d⟩ := m
    simp [depthMembers, ih]

end Draft

theorem depthItems_le_iff (items : List Json) (n : Nat) :
    depthItems items ≤ n ↔ ∀ v ∈ items, v.depth ≤ n := by
  induction items with
  | nil => simp [depthItems]
  | cons v rest ih => simp [depthItems, ih]

theorem depthMembers_le_iff (members : List (String × Json)) (n : Nat) :
    depthMembers members ≤ n ↔ ∀ m ∈ members, m.2.depth ≤ n := by
  induction members with
  | nil => simp [depthMembers]
  | cons m rest ih =>
    obtain ⟨k, v⟩ := m
    simp [depthMembers, ih]

theorem depth_ofMembers_le (members : List (String × Json)) :
    (ofMembers members).depth ≤ depthMembers members + 1 := by
  obtain ⟨stored, hstored, -, hmem⟩ := ofMembers_members members
  rw [hstored, depth]
  have hle := (depthMembers_le_iff stored (depthMembers members)).mpr fun m hm =>
    (depthMembers_le_iff members _).mp (Nat.le_refl _) m (hmem m hm)
  omega

mutual

/-- An opaque value is stored in canonical order, and is as deep as its draft at most. -/
theorem stored_of_json (d : Draft) (p : Place) (v : Json) (h : Decoder.json p d = .ok v) :
    v.canonical = v ∧ v.depth ≤ d.depth := by
  match d with
  | .null =>
    obtain rfl := Except.ok.inj h
    exact ⟨rfl, Nat.le_refl _⟩
  | .bool b =>
    obtain rfl := Except.ok.inj h
    exact ⟨rfl, Nat.le_refl _⟩
  | .number n =>
    obtain rfl := Except.ok.inj h
    exact ⟨rfl, Nat.le_refl _⟩
  | .string s =>
    obtain rfl := Except.ok.inj h
    exact ⟨rfl, Nat.le_refl _⟩
  | .fault f => cases h
  | .array items stop =>
    rw [Decoder.json] at h
    obtain ⟨q, -, h⟩ := exists_of_bind_ok h
    obtain ⟨vs, hvs, h⟩ := exists_of_bind_ok h
    obtain ⟨-, -, h⟩ := exists_of_bind_ok h
    obtain rfl := Except.ok.inj h
    obtain ⟨hstored, hdepth⟩ := stored_of_jsonItems items q vs hvs
    exact ⟨by rw [canonical, canonicalItems_of_stored hstored], by
      rw [depth, Draft.depth]
      omega⟩
  | .object members stop =>
    rw [Decoder.json] at h
    obtain ⟨q, -, h⟩ := exists_of_bind_ok h
    obtain ⟨vs, hvs, h⟩ := exists_of_bind_ok h
    obtain ⟨-, -, h⟩ := exists_of_bind_ok h
    obtain rfl := Except.ok.inj h
    obtain ⟨hstored, hdepth⟩ := stored_of_jsonMembers members q vs hvs
    exact ⟨canonical_ofMembers hstored, by
      have hle := depth_ofMembers_le vs
      rw [Draft.depth]
      omega⟩

theorem stored_of_jsonItems (items : List Draft) (p : Place) (vs : List Json)
    (h : Decoder.jsonItems p items = .ok vs) :
    (∀ v ∈ vs, v.canonical = v) ∧ depthItems vs ≤ Draft.depthItems items := by
  match items with
  | [] =>
    obtain rfl := Except.ok.inj h
    exact ⟨by simp, Nat.le_refl _⟩
  | d :: rest =>
    rw [Decoder.jsonItems] at h
    obtain ⟨v, hv, h⟩ := exists_of_bind_ok h
    obtain ⟨more, hmore, h⟩ := exists_of_bind_ok h
    obtain rfl := Except.ok.inj h
    obtain ⟨hstored, hdepth⟩ := stored_of_json d p v hv
    obtain ⟨hrest, hdepths⟩ := stored_of_jsonItems rest p more hmore
    refine ⟨List.forall_mem_cons.mpr ⟨hstored, hrest⟩, ?_⟩
    rw [depthItems, Draft.depthItems]
    omega

theorem stored_of_jsonMembers (members : List (Key × Draft)) (p : Place)
    (vs : List (String × Json)) (h : Decoder.jsonMembers p members = .ok vs) :
    (∀ m ∈ vs, m.2.canonical = m.2) ∧ depthMembers vs ≤ Draft.depthMembers members := by
  match members with
  | [] =>
    obtain rfl := Except.ok.inj h
    exact ⟨by simp, Nat.le_refl _⟩
  | (k, d) :: rest =>
    rw [Decoder.jsonMembers] at h
    obtain ⟨s, -, h⟩ := exists_of_bind_ok h
    obtain ⟨v, hv, h⟩ := exists_of_bind_ok h
    obtain ⟨more, hmore, h⟩ := exists_of_bind_ok h
    obtain rfl := Except.ok.inj h
    obtain ⟨hstored, hdepth⟩ := stored_of_json d p v hv
    obtain ⟨hrest, hdepths⟩ := stored_of_jsonMembers rest p more hmore
    refine ⟨List.forall_mem_cons.mpr ⟨hstored, hrest⟩, ?_⟩
    rw [depthMembers, Draft.depthMembers]
    omega

end

/-- A value in canonical order is stored as it is, and no deeper than the value it is made of. -/
theorem canonical_stored (v : Json) :
    v.canonical.canonical = v.canonical ∧ v.canonical.depth ≤ v.depth := by
  obtain ⟨hstored, hdepth⟩ :=
    stored_of_json (.ofJson v) .buffer _ (json_ofJson v .buffer (Place.fits_buffer _))
  exact ⟨hstored, by rwa [Draft.depth_ofJson] at hdepth⟩

/-- Where a container of a text was opened, there was room for it, and there is less inside. -/
theorem Place.enter_text {p q : Place} (ht : p.origin = .text) (h : p.enter = .ok q) :
    1 < p.depth ∧ q.origin = .text ∧ q.depth = p.depth - 1 := by
  unfold Place.enter at h
  rw [if_pos ht] at h
  split at h
  · rename_i hroom
    obtain rfl := Except.ok.inj h
    exact ⟨hroom, ht, rfl⟩
  · cases h

mutual

/-- A value that was read from a text fits there. -/
theorem depth_lt_of_json (d : Draft) (p : Place) (v : Json) (ht : p.origin = .text)
    (hp : 0 < p.depth) (h : Decoder.json p d = .ok v) : d.depth < p.depth := by
  match d with
  | .null => exact hp
  | .bool b => exact hp
  | .number n => exact hp
  | .string s => exact hp
  | .fault f => cases h
  | .array items stop =>
    rw [Decoder.json] at h
    obtain ⟨q, hq, h⟩ := exists_of_bind_ok h
    obtain ⟨vs, hvs, -⟩ := exists_of_bind_ok h
    obtain ⟨hroom, htext, hdepth⟩ := Place.enter_text ht hq
    have hlt := depth_lt_of_jsonItems items q vs htext (by omega) hvs
    rw [Draft.depth]
    omega
  | .object members stop =>
    rw [Decoder.json] at h
    obtain ⟨q, hq, h⟩ := exists_of_bind_ok h
    obtain ⟨vs, hvs, -⟩ := exists_of_bind_ok h
    obtain ⟨hroom, htext, hdepth⟩ := Place.enter_text ht hq
    have hlt := depth_lt_of_jsonMembers members q vs htext (by omega) hvs
    rw [Draft.depth]
    omega

theorem depth_lt_of_jsonItems (items : List Draft) (p : Place) (vs : List Json)
    (ht : p.origin = .text) (hp : 0 < p.depth) (h : Decoder.jsonItems p items = .ok vs) :
    Draft.depthItems items < p.depth := by
  match items with
  | [] => exact hp
  | d :: rest =>
    rw [Decoder.jsonItems] at h
    obtain ⟨v, hv, h⟩ := exists_of_bind_ok h
    obtain ⟨more, hmore, -⟩ := exists_of_bind_ok h
    have hd := depth_lt_of_json d p v ht hp hv
    have hrest := depth_lt_of_jsonItems rest p more ht hp hmore
    rw [Draft.depthItems]
    omega

theorem depth_lt_of_jsonMembers (members : List (Key × Draft)) (p : Place)
    (vs : List (String × Json)) (ht : p.origin = .text) (hp : 0 < p.depth)
    (h : Decoder.jsonMembers p members = .ok vs) : Draft.depthMembers members < p.depth := by
  match members with
  | [] => exact hp
  | (k, d) :: rest =>
    rw [Decoder.jsonMembers] at h
    obtain ⟨s, -, h⟩ := exists_of_bind_ok h
    obtain ⟨v, hv, h⟩ := exists_of_bind_ok h
    obtain ⟨more, hmore, -⟩ := exists_of_bind_ok h
    have hd := depth_lt_of_json d p v ht hp hv
    have hrest := depth_lt_of_jsonMembers rest p more ht hp hmore
    rw [Draft.depthMembers]
    omega

end

end EchoServer.Json
