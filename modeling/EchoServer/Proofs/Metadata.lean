import EchoServer.Metadata
import EchoServer.Proofs.Except
import EchoServer.Proofs.Message.Status
import Mathlib.Data.List.Forall2
import Mathlib.Logic.Function.Iterate

namespace EchoServer.Metadata

open Json (Decoder Draft Place)

/-- The same character, or the same letter of ASCII in either case. -/
def SameLetter (c d : Char) : Prop :=
  c = d ∨ ∃ n < 26, (c.toNat = 65 + n ∧ d.toNat = 97 + n) ∨ (c.toNat = 97 + n ∧ d.toNat = 65 + n)

/-- The same text, up to the case of the letters of ASCII. -/
def SameUpToCase (k l : String) : Prop := List.Forall₂ SameLetter k.toList l.toList

theorem toNat_toLower (c : Char) :
    c.toLower.toNat = if 65 ≤ c.toNat ∧ c.toNat ≤ 90 then c.toNat + 32 else c.toNat := by
  have hupper : (c.val ≥ 'A'.val ∧ c.val ≤ 'Z'.val) ↔ 65 ≤ c.toNat ∧ c.toNat ≤ 90 := Iff.rfl
  unfold Char.toLower
  split
  · rename_i h
    have hbounds := hupper.mp h
    rw [if_pos hbounds]
    show (c.val + 32).toNat = c.val.toNat + 32
    have hbound : c.val.toNat ≤ 90 := hbounds.2
    rw [UInt32.toNat_add]
    exact Nat.mod_eq_of_lt (by simp; omega)
  · rename_i h
    rw [if_neg fun hbounds => h (hupper.mpr hbounds)]

theorem toLower_eq_iff (c d : Char) : c.toLower = d.toLower ↔ SameLetter c d := by
  have hchar (c d : Char) : c = d ↔ c.toNat = d.toNat :=
    ⟨fun h => h ▸ rfl, fun h => Char.ext (UInt32.toNat_inj.mp h)⟩
  rw [hchar c.toLower, toNat_toLower, toNat_toLower, SameLetter, hchar c d]
  constructor
  · intro h
    by_cases hc : 65 ≤ c.toNat ∧ c.toNat ≤ 90
    · rw [if_pos hc] at h
      split at h
      · omega
      · exact Or.inr ⟨c.toNat - 65, by omega, by omega⟩
    · rw [if_neg hc] at h
      split at h
      · exact Or.inr ⟨d.toNat - 65, by omega, by omega⟩
      · exact Or.inl h
  · rintro (h | ⟨n, hn, h | h⟩)
    · rw [h]
    · rw [if_pos (by omega), if_neg (by omega)]
      omega
    · rw [if_neg (by omega), if_pos (by omega)]
      omega

theorem sameKey_iff (k l : String) : sameKey k l = true ↔ SameUpToCase k l := by
  have hmap (cs ds : List Char) :
      cs.map Char.toLower = ds.map Char.toLower ↔ List.Forall₂ SameLetter cs ds := by
    induction cs generalizing ds with
    | nil => cases ds <;> simp
    | cons c cs ih =>
      cases ds with
      | nil => simp
      | cons d ds => simp [toLower_eq_iff, ih]
  rw [sameKey, decide_eq_true_eq, lowerAscii, lowerAscii, String.ofList_inj, hmap]
  exact Iff.rfl

instance (k l : String) : Decidable (SameUpToCase k l) := decidable_of_iff _ (sameKey_iff k l)

theorem SameUpToCase.refl (k : String) : SameUpToCase k k :=
  (sameKey_iff k k).mp (by simp [sameKey])

theorem SameUpToCase.symm {k l : String} (h : SameUpToCase k l) : SameUpToCase l k := by
  have hkl : lowerAscii k = lowerAscii l := of_decide_eq_true ((sameKey_iff k l).mpr h)
  exact (sameKey_iff l k).mp (decide_eq_true hkl.symm)

theorem SameUpToCase.trans {k l j : String} (h : SameUpToCase k l) (h' : SameUpToCase l j) :
    SameUpToCase k j := by
  have hkl : lowerAscii k = lowerAscii l := of_decide_eq_true ((sameKey_iff k l).mpr h)
  have hlj : lowerAscii l = lowerAscii j := of_decide_eq_true ((sameKey_iff l j).mpr h')
  exact (sameKey_iff k j).mp (decide_eq_true (hkl.trans hlj))

/-- A key is stored as another spelling of it. -/
theorem sameUpToCase_lowerAscii (k : String) : SameUpToCase k (lowerAscii k) := by
  have hlower (c : Char) : c.toLower.toLower = c.toLower := by
    have hchar := toNat_toLower c
    apply Char.ext
    apply UInt32.toNat_inj.mp
    show c.toLower.toLower.toNat = c.toLower.toNat
    rw [toNat_toLower, if_neg]
    rw [hchar]
    split <;> omega
  apply (sameKey_iff k _).mp
  apply decide_eq_true
  simp only [lowerAscii, String.toList_ofList, List.map_map]
  congr 1
  exact List.map_congr_left fun c _ => (hlower c).symm

/-- The pairs with a key and with other spellings of it. -/
def under (key : String) (pairs : List (String × String)) : List (String × String) :=
  pairs.filter fun p => SameUpToCase p.1 key

/-- The same values in the same order, under keys that are the same up to case. -/
def SamePairs (pairs pairs' : List (String × String)) : Prop :=
  List.Forall₂ (fun p q => SameUpToCase p.1 q.1 ∧ p.2 = q.2) pairs pairs'

/-- The metadata comes about in one of the possible ways, from pairs that are given one after the
other: it is empty at first, pairs are inserted, or it is made of a list or read from a value. -/
inductive Reached : Metadata → List (String × String) → Prop
  | empty : Reached .empty []
  | insert {m pairs} (key value : String) (h : Reached m pairs) :
      Reached (m.insert key value) (pairs ++ [(key, value)])
  | ofList (pairs) : Reached (.ofList pairs) pairs
  | decoded {m pairs} (p : Place)
      (h : Metadata.decoder p (.ofJson (toJson ⟨pairs⟩)) = .ok m) : Reached m pairs

section
variable {m inbound inbound' trailers : Metadata} {pairs pairs' : List (String × String)}
  {key key' value : String}

theorem getAll_eq (m : Metadata) (key : String) :
    m.getAll key = (under key m.entries).map (·.2) := by
  have hsame (p : String × String) : sameKey p.1 key = decide (SameUpToCase p.1 key) := by
    rw [Bool.eq_iff_iff, sameKey_iff, decide_eq_true_iff]
  simp only [getAll, under, hsame]

theorem under_append : under key (pairs ++ pairs') = under key pairs ++ under key pairs' :=
  List.filter_append _ _

/-- Under spellings of one key, the same values are found. -/
theorem SamePairs.map_under (h : SamePairs pairs pairs') (hkey : SameUpToCase key key') :
    (under key pairs).map (·.2) = (under key' pairs').map (·.2) := by
  induction h with
  | nil => rfl
  | @cons p q pairs pairs' hpq _ ih =>
    have hiff : SameUpToCase p.1 key ↔ SameUpToCase q.1 key' :=
      ⟨fun h => hpq.1.symm.trans (h.trans hkey), fun h => hpq.1.trans (h.trans hkey.symm)⟩
    unfold under at ih ⊢
    by_cases hp : SameUpToCase p.1 key
    · simp [hp, hiff.mp hp, hpq.2, ih]
    · have hq : ¬ SameUpToCase q.1 key' := fun h => hp (hiff.mpr h)
      simp [hp, hq, ih]

theorem SamePairs.refl (pairs : List (String × String)) : SamePairs pairs pairs :=
  List.forall₂_same.mpr fun p _ => ⟨.refl p.1, rfl⟩

theorem SamePairs.append {more more' : List (String × String)} (h : SamePairs pairs pairs')
    (hmore : SamePairs more more') : SamePairs (pairs ++ more) (pairs' ++ more') :=
  List.rel_append h hmore

theorem entries_insert (m : Metadata) (key value : String) :
    (m.insert key value).entries = m.entries ++ [(lowerAscii key, value)] := rfl

theorem entries_foldl_insert (pairs : List (String × String)) (m : Metadata) :
    (pairs.foldl (fun m p => m.insert p.1 p.2) m).entries =
      m.entries ++ pairs.map fun p => (lowerAscii p.1, p.2) := by
  induction pairs generalizing m with
  | nil => simp
  | cons p pairs ih =>
    rw [List.foldl_cons, ih, entries_insert]
    simp

theorem entries_ofList (pairs : List (String × String)) :
    (ofList pairs).entries = pairs.map fun p => (lowerAscii p.1, p.2) := by
  rw [ofList, entries_foldl_insert]
  rfl

theorem eq_string_of_decoder {p : Place} {v : Json} {s : String}
    (h : Decoder.string p (.ofJson v) = .ok s) : v = .string s := by
  cases v with
  | string t =>
    obtain rfl : t = s := Except.ok.inj h
    rfl
  | null => cases h
  | bool b => cases h
  | number n => cases h
  | array items => cases h
  | object members => cases h

/-- What a list has behind the items that are taken is surplus, wherever it came from. -/
theorem eq_nil_of_checkSurplus {p : Place} (taken : List Draft) {more : List Draft}
    {stop : Option Json.Fault}
    (h : Json.checkSurplus p taken.length (taken ++ more) stop = .ok ()) : more = [] := by
  by_contra hmore
  have hlonger : taken.length < (taken ++ more).length := by
    have hpos := List.length_pos_iff.mpr hmore
    rw [List.length_append]
    omega
  unfold Json.checkSurplus at h
  rw [if_pos hlonger, if_pos hlonger, if_pos hlonger] at h
  split at h <;> cases h

theorem eq_array_of_pair {p : Place} {v : Json} {e : String × String}
    (h : Decoder.pair Decoder.string Decoder.string p (.ofJson v) = .ok e) :
    v = .array [.string e.1, .string e.2] := by
  cases v with
  | array items =>
    rw [Draft.ofJson, Decoder.pair] at h
    obtain ⟨q, -, h⟩ := exists_of_bind_ok h
    rcases items with _ | ⟨x, _ | ⟨y, more⟩⟩
    · cases h
    · obtain ⟨-, -, h⟩ := exists_of_bind_ok h
      cases h
    · obtain ⟨a, ha, h⟩ := exists_of_bind_ok h
      obtain ⟨b, hb, h⟩ := exists_of_bind_ok h
      obtain ⟨⟨⟩, hend, h⟩ := exists_of_bind_ok h
      obtain rfl := Except.ok.inj h
      have hmore : Draft.ofItems more = [] :=
        eq_nil_of_checkSurplus [.ofJson x, .ofJson y] hend
      obtain rfl : more = [] := by
        cases more with
        | nil => rfl
        | cons z more => cases hmore
      rw [eq_string_of_decoder ha, eq_string_of_decoder hb]
  | null => cases h
  | bool b => cases h
  | number n => cases h
  | string s => cases h
  | object members => cases h

/-- Metadata is read from nothing but the list of its pairs, with their keys as they are. -/
theorem eq_toJson_of_decoder {p : Place} {v : Json} (h : Metadata.decoder p (.ofJson v) = .ok m) :
    v = m.toJson := by
  obtain ⟨pairs, hlist, hpairs⟩ := exists_of_bind_ok h
  obtain rfl := Except.ok.inj hpairs
  have hitems (q : Place) (items : List Json) (pairs : List (String × String))
      (h : Decoder.items (Decoder.pair Decoder.string Decoder.string) q (Draft.ofItems items) =
        .ok pairs) : items = pairs.map fun e => .array [.string e.1, .string e.2] := by
    induction items generalizing pairs with
    | nil =>
      obtain rfl := Except.ok.inj h
      rfl
    | cons v items ih =>
      rw [Draft.ofItems, Decoder.items] at h
      obtain ⟨e, he, h⟩ := exists_of_bind_ok h
      obtain ⟨more, hmore, h⟩ := exists_of_bind_ok h
      obtain rfl := Except.ok.inj h
      rw [List.map_cons, eq_array_of_pair he, ih more hmore]
  cases v with
  | array items =>
    rw [Draft.ofJson, Decoder.list] at hlist
    obtain ⟨q, -, hlist⟩ := exists_of_bind_ok hlist
    obtain ⟨read, hread, hlist⟩ := exists_of_bind_ok hlist
    obtain ⟨-, -, hlist⟩ := exists_of_bind_ok hlist
    obtain rfl := Except.ok.inj hlist
    rw [toJson, hitems q items read hread]
  | null => cases hlist
  | bool b => cases hlist
  | number n => cases hlist
  | string s => cases hlist
  | object members => cases hlist

theorem toJson_injective {m m' : Metadata} (h : m.toJson = m'.toJson) : m = m' := by
  obtain ⟨entries⟩ := m
  obtain ⟨entries'⟩ := m'
  have hspell : Function.Injective fun e : String × String =>
      Json.array [.string e.1, .string e.2] := by
    rintro ⟨k, v⟩ ⟨k', v'⟩ heq
    simpa using heq
  rw [mk.injEq]
  exact List.map_injective_iff.mpr hspell (Json.array.inj h)

/-- What metadata holds are the pairs that were given, up to the case of their keys. -/
theorem Reached.samePairs (h : Reached m pairs) : SamePairs pairs m.entries := by
  have hstored (pairs : List (String × String)) :
      SamePairs pairs (pairs.map fun p => (lowerAscii p.1, p.2)) := by
    induction pairs with
    | nil => exact .nil
    | cons p pairs ih => exact .cons ⟨sameUpToCase_lowerAscii p.1, rfl⟩ ih
  induction h with
  | empty => exact .nil
  | insert key value _ ih => exact ih.append (hstored [(key, value)])
  | ofList pairs =>
    rw [entries_ofList]
    exact hstored pairs
  | @decoded m pairs p h =>
    obtain rfl : (⟨pairs⟩ : Metadata) = m := toJson_injective (eq_toJson_of_decoder h)
    exact .refl pairs

theorem Reached.getAll_eq (h : Reached m pairs) (key : String) :
    m.getAll key = (under key pairs).map (·.2) := by
  rw [Metadata.getAll_eq, h.samePairs.map_under (.refl key)]

theorem getAll_insert (m : Metadata) (key value key' : String) :
    (m.insert key value).getAll key' =
      m.getAll key' ++ if SameUpToCase key key' then [value] else [] := by
  have hstored : SameUpToCase (lowerAscii key) key' ↔ SameUpToCase key key' :=
    ⟨fun h => (sameUpToCase_lowerAscii key).trans h,
      fun h => (sameUpToCase_lowerAscii key).symm.trans h⟩
  rw [Metadata.getAll_eq, entries_insert, under_append, List.map_append, ← Metadata.getAll_eq]
  by_cases h : SameUpToCase key key'
  · simp [under, hstored, h]
  · simp [under, hstored, h]

theorem entries_echoTrailers_onto (inbound trailers : Metadata) :
    (inbound.echoTrailers trailers).entries =
      trailers.entries ++ (inbound.getAll trailerKey).map fun v => (trailerKey, v) := by
  have hlower : lowerAscii trailerKey = trailerKey := by decide
  have hpairs : inbound.echoTrailers trailers =
      ((inbound.getAll trailerKey).map fun v => (trailerKey, v)).foldl
        (fun m p => m.insert p.1 p.2) trailers := by
    rw [List.foldl_map]
    rfl
  rw [hpairs, entries_foldl_insert, List.map_map]
  simp [Function.comp_def, hlower]

theorem entries_iterate_echoTrailers (n : Nat) (inbound trailers : Metadata) :
    (inbound.echoTrailers^[n] trailers).entries = trailers.entries ++
      (List.replicate n ((inbound.getAll trailerKey).map fun v => (trailerKey, v))).flatten := by
  induction n with
  | zero => simp
  | succ n ih =>
    rw [Function.iterate_succ_apply', entries_echoTrailers_onto, ih, List.replicate_succ',
      List.flatten_append, List.append_assoc]
    simp

theorem getAll_echoTrailers (inbound : Metadata) :
    (inbound.echoTrailers .empty).getAll trailerKey = inbound.getAll trailerKey := by
  rw [Metadata.getAll_eq, entries_echoTrailers_onto]
  simp [under, empty, List.filter_map, Function.comp_def, SameUpToCase.refl]

end

/-- Metadata finds under a key the values that were given with it, in order, where keys are the same
up to the case of the letters of ASCII. -/
theorem metadata_is_multimap :
    (∀ m pairs, Reached m pairs → SamePairs pairs m.entries ∧
      ∀ key, m.getAll key = (pairs.filter fun p => SameUpToCase p.1 key).map (·.2)) ∧
    (∀ m m' pairs pairs' key key', Reached m pairs → Reached m' pairs' →
      SamePairs pairs pairs' → SameUpToCase key key' → m.getAll key = m'.getAll key') ∧
    (∀ (m : Metadata) key value key',
      (SameUpToCase key key' → (m.insert key value).getAll key' = m.getAll key' ++ [value]) ∧
      (¬ SameUpToCase key key' → (m.insert key value).getAll key' = m.getAll key')) ∧
    (∀ (p : Place) v m, p.Fits 2 → (Metadata.decoder p (.ofJson v) = .ok m ↔
      v = .array (m.entries.map fun e => .array [.string e.1, .string e.2]))) ∧
    (∀ inbound inbound' trailers : Metadata,
      inbound.getAll trailerKey = inbound'.getAll trailerKey →
        inbound.echoTrailers trailers = inbound'.echoTrailers trailers) ∧
    (∀ inbound inbound' : Metadata,
      (echoTrailers ⟨inbound.entries ++ inbound'.entries⟩ .empty).entries =
        (inbound.echoTrailers .empty).entries ++ (inbound'.echoTrailers .empty).entries) ∧
    (∀ (n : Nat) (inbound trailers : Metadata),
      (inbound.echoTrailers^[n] trailers).entries = trailers.entries ++
        (List.replicate n (inbound.echoTrailers .empty).entries).flatten) ∧
    (∀ inbound : Metadata,
      (inbound.echoTrailers .empty).echoTrailers .empty = inbound.echoTrailers .empty) := by
  have hechoed (inbound : Metadata) : (inbound.echoTrailers .empty).entries =
      (inbound.getAll trailerKey).map fun v => (trailerKey, v) := by
    rw [entries_echoTrailers_onto]
    rfl
  have hagree (inbound inbound' trailers : Metadata)
      (h : inbound.getAll trailerKey = inbound'.getAll trailerKey) :
      inbound.echoTrailers trailers = inbound'.echoTrailers trailers := by
    rw [echoTrailers, echoTrailers, h]
  refine ⟨?_, ?_, ?_, ?_, hagree, ?_, ?_, ?_⟩
  · intro m pairs h
    exact ⟨h.samePairs, h.getAll_eq⟩
  · intro m m' pairs pairs' key key' h h' hpairs hkey
    rw [h.getAll_eq, h'.getAll_eq, hpairs.map_under hkey]
  · intro m key value key'
    rw [getAll_insert]
    refine ⟨fun h => ?_, fun h => ?_⟩
    · rw [if_pos h]
    · rw [if_neg h, List.append_nil]
  · intro p v m hfits
    refine ⟨eq_toJson_of_decoder, ?_⟩
    rintro rfl
    exact m.decoder_toJson p hfits
  · intro inbound inbound'
    rw [hechoed, hechoed, hechoed, ← List.map_append]
    simp only [getAll_eq, under_append, List.map_append]
  · intro n inbound trailers
    rw [entries_iterate_echoTrailers, hechoed]
  · intro inbound
    exact hagree _ _ _ (getAll_echoTrailers inbound)

/-- Pairs that are read keep their keys, and yet their values are found with others. A letter
outside ASCII has one case only. -/
theorem metadata_is_multimap_mixed_case :
    ∃ m, Reached m [("Showcase-Trailer", "x"), ("\u00c9", "y"), ("SHOWCASE-TRAILER", "z")] ∧
      m.getAll "showcase-trailer" = ["x", "z"] ∧ m.getAll "\u00e9" = [] ∧
      (m.insert "showcase-Trailer" "w").getAll "Showcase-trailer" =
        m.getAll "Showcase-trailer" ++ ["w"] := by
  let received : Metadata := ⟨[("Showcase-Trailer", "x"), ("\u00c9", "y")]⟩
  have hread : Reached received [("Showcase-Trailer", "x"), ("\u00c9", "y")] :=
    .decoded .buffer (received.decoder_toJson .buffer (Json.Place.fits_buffer 2))
  have hm := hread.insert "SHOWCASE-TRAILER" "z"
  obtain ⟨hfound, -, hinsert, -⟩ := metadata_is_multimap
  refine ⟨_, hm, ?_, ?_, ?_⟩
  · rw [(hfound _ _ hm).2]
    decide
  · rw [(hfound _ _ hm).2]
    decide
  · exact (hinsert _ _ _ _).1 (by decide)

end EchoServer.Metadata
