import EchoServer.Proofs.Json.Codec

namespace EchoServer.Json

/-- Whether the second value is another way to spell the first. -/
abbrev Respelling : Type := Json → Json → Prop

/-- What may become of a field that says nothing. -/
inductive Presence
  | required
  /-- The field may be left out where its value is `v`. -/
  | default (v : Json)
  /-- A field that is not there may be null. -/
  | optional

/-- A field of an object, and the ways to spell its value. -/
structure Field where
  name : String
  presence : Presence
  respelling : Respelling

/-- The members that may stand for a field whose value is given, or that is left out. -/
inductive Field.Spells (f : Field) : Option Json → List (String × Json) → Prop
  | kept {v w : Json} : f.respelling v w → f.Spells (some v) [(f.name, w)]
  | dropped {v : Json} : f.presence = .default v → f.Spells (some v) []
  | absent : f.Spells none []
  /-- What was left out may be said as well. -/
  | added {v w : Json} :
      f.presence = .default v → f.respelling v w → f.Spells none [(f.name, w)]
  | null : f.presence = .optional → f.Spells none [(f.name, .null)]

namespace Respelling

/-- There is no other way to spell the value. -/
def exact : Respelling := fun v w => w = v

/-- The same opaque value: only the order of the members of its objects is free. -/
def reordered : Respelling := fun v w => w.canonical = v.canonical

/-- A list of as many items, each in another spelling. -/
def list (item : Respelling) : Respelling := fun v w =>
  ∃ vs ws, v = .array vs ∧ w = .array ws ∧ List.Forall₂ item vs ws

/-- An object with what may stand for these fields and with any members of other names, all of
them in any order. -/
def object (fields : List Field) : Respelling := fun v w =>
  ∃ ms ns parts others, v = .object ms ∧ w = .object ns ∧
    List.Forall₂ (fun f part => f.Spells (ms.lookup f.name) part) fields parts ∧
    (∀ m ∈ others, m.1 ∉ fields.map Field.name) ∧ ns.Perm (parts.flatten ++ others)

/-- An object whose only member names a variant; its content may be spelled in another way. -/
def variant (contents : List (String × Respelling)) : Respelling := fun v w =>
  ∃ name content x y, (name, content) ∈ contents ∧ content x y ∧
    v = .object [(name, x)] ∧ w = .object [(name, y)]

/-- An object whose member `type`, which is written first, says which other fields it has. -/
def tagged (fieldsOf : String → List Field) : Respelling := fun v w =>
  ∃ kind ms, v = .object (("type", .string kind) :: ms) ∧
    object (⟨"type", .required, exact⟩ :: fieldsOf kind) v w

end Respelling

/-- The decoder reads `a` from whatever else spells `v`, wherever that fits. -/
def Decoder.Tolerates {α : Type} (item : Decoder α) (respelling : Respelling) (v : Json) (a : α) :
    Prop :=
  ∀ w, respelling v w → ∀ p : Place, p.Fits w.depth → item p (.ofJson w) = .ok a

/-- The record reads `a` from any object in which, under each name, there is what may stand for
the field of `spelled`. -/
def Record.Tolerates {α : Type} (r : Record α) (fields : List Field)
    (spelled : List (String × Json)) (a : α) : Prop :=
  ∀ (p : Place) (members : List (String × Json)), p.Fits (depthMembers members) →
    (∀ f ∈ fields, f.Spells (spelled.lookup f.name) (members.filter (·.1 = f.name))) →
    r.ofMembers p (Draft.ofMembers members) = .ok a

section
variable {f : Field} {fields : List Field} {given : Option Json} {name : String}
  {respelling : Respelling} {part : List (String × Json)} {parts : List (List (String × Json))}
  {ms ns : List (String × Json)}

theorem Field.Spells.name_eq (h : f.Spells given part) : ∀ m ∈ part, m.1 = f.name := by
  intro m hm
  cases h with
  | kept hw => rw [List.mem_singleton.mp hm]
  | dropped hp => cases hm
  | absent => cases hm
  | added hp hw => rw [List.mem_singleton.mp hm]
  | null hp => rw [List.mem_singleton.mp hm]

/-- One member at most stands for a field, so there is no other order. -/
theorem Field.Spells.eq_of_perm (h : f.Spells given part) (hperm : ns.Perm part) : ns = part := by
  cases h with
  | kept hw => exact List.perm_singleton.mp hperm
  | dropped hp => exact hperm.eq_nil
  | absent => exact hperm.eq_nil
  | added hp hw => exact List.perm_singleton.mp hperm
  | null hp => exact List.perm_singleton.mp hperm

theorem Field.Spells.of_required {v : Json}
    (h : (⟨name, .required, respelling⟩ : Field).Spells (some v) part) :
    ∃ w, respelling v w ∧ part = [(name, w)] := by
  cases h with
  | kept hw => exact ⟨_, hw, rfl⟩
  | dropped hp => cases hp

theorem Field.Spells.of_default {d : Json}
    (h : (⟨name, .default d, respelling⟩ : Field).Spells given part) :
    (∃ w, respelling (given.getD d) w ∧ part = [(name, w)]) ∨ (given.getD d = d ∧ part = []) := by
  cases h with
  | kept hw => exact Or.inl ⟨_, hw, rfl⟩
  | dropped hp =>
    cases hp
    exact Or.inr ⟨rfl, rfl⟩
  | absent => exact Or.inr ⟨rfl, rfl⟩
  | added hp hw =>
    cases hp
    exact Or.inl ⟨_, hw, rfl⟩
  | null hp => cases hp

theorem Field.Spells.of_optional
    (h : (⟨name, .optional, respelling⟩ : Field).Spells given part) :
    (∃ v w, given = some v ∧ respelling v w ∧ part = [(name, w)]) ∨
      (given = none ∧ (part = [] ∨ part = [(name, .null)])) := by
  cases h with
  | kept hw => exact Or.inl ⟨_, _, rfl, hw, rfl⟩
  | dropped hp => cases hp
  | absent => exact Or.inr ⟨rfl, Or.inl rfl⟩
  | added hp hw => cases hp
  | null hp => exact Or.inr ⟨rfl, Or.inr rfl⟩

theorem names_of_parts
    (h : List.Forall₂ (fun f part => f.Spells (ms.lookup f.name) part) fields parts) :
    ∀ m ∈ parts.flatten, m.1 ∈ fields.map Field.name := by
  induction h with
  | nil => exact fun m hm => (List.not_mem_nil hm).elim
  | cons hspells hrest ih =>
    intro m hm
    rcases List.mem_append.mp hm with hm | hm
    · exact List.mem_cons.mpr (Or.inl (hspells.name_eq m hm))
    · exact List.mem_cons_of_mem _ (ih m hm)

/-- Under the name of a field stands what is there for it, and nothing that is there for another. -/
theorem filter_parts (hnodup : (fields.map Field.name).Nodup)
    (h : List.Forall₂ (fun f part => f.Spells (ms.lookup f.name) part) fields parts) :
    ∀ f ∈ fields, f.Spells (ms.lookup f.name) (parts.flatten.filter (·.1 = f.name)) := by
  induction h with
  | nil => exact fun f hf => (List.not_mem_nil hf).elim
  | cons hspells hrest ih =>
    rename_i g part gs parts
    obtain ⟨hfirst, htail⟩ := List.nodup_cons.mp hnodup
    intro f hf
    rw [List.flatten_cons, List.filter_append]
    rcases List.mem_cons.mp hf with rfl | hf
    · have hown : part.filter (·.1 = f.name) = part :=
        List.filter_eq_self.mpr fun m hm => by simpa using hspells.name_eq m hm
      rw [hown, filter_eq_nil_of_names (names_of_parts hrest) hfirst, List.append_nil]
      exact hspells
    · have hnames : ∀ m ∈ part, m.1 ∈ [g.name] := fun m hm =>
        List.mem_singleton.mpr (hspells.name_eq m hm)
      have hother : f.name ∉ [g.name] := fun hname =>
        hfirst (List.mem_singleton.mp hname ▸ List.mem_map_of_mem hf)
      rw [filter_eq_nil_of_names hnames hother, List.nil_append]
      exact ih htail f hf

/-- In whatever order the members of an object come, and whatever others there are, under the name
of each field stands what may stand for it. -/
theorem spells_of_object (hnodup : (fields.map Field.name).Nodup)
    (h : Respelling.object fields (.object ms) (.object ns)) :
    ∀ f ∈ fields, f.Spells (ms.lookup f.name) (ns.filter (·.1 = f.name)) := by
  obtain ⟨_, _, parts, others, hms, hns, hparts, hothers, hperm⟩ := h
  cases hms
  cases hns
  intro f hf
  have hspells := filter_parts hnodup hparts f hf
  have hnone : others.filter (·.1 = f.name) = [] := by
    refine List.filter_eq_nil_iff.mpr fun m hm heq => hothers m hm ?_
    have hname : m.1 = f.name := by simpa using heq
    exact hname ▸ List.mem_map_of_mem hf
  have hunder := hperm.filter (·.1 = f.name)
  rw [List.filter_append, hnone, List.append_nil] at hunder
  rw [hspells.eq_of_perm hunder]
  exact hspells

/-- What fits as a whole fits member by member. -/
theorem Place.Fits.member {p : Place} {w : Json} (h : p.Fits (depthMembers ns))
    (hw : ns.filter (·.1 = name) = [(name, w)]) : p.Fits w.depth := by
  have hmem : (name, w) ∈ ns.filter (·.1 = name) := hw ▸ List.mem_singleton_self _
  exact h.of_le ((depthMembers_le_iff ns _).mp (Nat.le_refl _) _ (List.mem_of_mem_filter hmem))

end

section
variable {α β γ : Type} {item : Decoder α} {respelling : Respelling}

theorem tolerates_exact {v : Json} {a : α} (h : item.ReadsBack v a) :
    item.Tolerates .exact v a := by
  rintro w rfl p hp
  exact (h p hp).1

/-- An opaque value in canonical order is read from its members in any order. -/
theorem tolerates_json {v : Json} (h : v.canonical = v) :
    Decoder.Tolerates Decoder.json .reordered v v := by
  intro w hw p hp
  have hsame : w.canonical = v.canonical := hw
  rw [json_ofJson w p hp, hsame, h]

theorem items_of_forall₂ {p : Place} {as : List α} {ws : List Json}
    (h : List.Forall₂ (fun a w => item p (.ofJson w) = .ok a) as ws) :
    Decoder.items item p (Draft.ofItems ws) = .ok as := by
  induction h with
  | nil => rfl
  | cons hw hrest ih =>
    simp [Draft.ofItems, Decoder.items, hw, ih, bind, Except.bind, pure, Except.pure]

theorem tolerates_list (spell : α → Json) (as : List α)
    (h : ∀ a ∈ as, item.Tolerates respelling (spell a) a) :
    (Decoder.list item).Tolerates (.list respelling) (.array (as.map spell)) as := by
  rintro _ ⟨_, ws, hv, rfl, hall⟩ p hp
  cases hv
  obtain ⟨q, hq, -, hfits⟩ := Place.Fits.enter (d := depthItems ws) hp
  have hread : List.Forall₂ (fun a w => item q (.ofJson w) = .ok a) as ws := by
    clear hp hq
    induction as generalizing ws with
    | nil =>
      cases hall
      exact .nil
    | cons a as ih =>
      cases hall with
      | cons hw hrest =>
        refine .cons (h a (List.mem_cons_self ..) _ hw q (hfits.of_le (Nat.le_max_left _ _))) ?_
        exact ih (fun b hb => h b (List.mem_cons_of_mem _ hb)) _ hrest
          (hfits.of_le (Nat.le_max_right _ _))
  rw [Draft.ofJson, Decoder.list]
  simp [hq, items_of_forall₂ hread, bind, Except.bind, checkStop, pure, Except.pure]

section
variable {fields : List Field} {spelled : List (String × Json)} {name : String}

theorem tolerates_required {v : Json} {a : α} (hfield : ⟨name, .required, respelling⟩ ∈ fields)
    (hgiven : spelled.lookup name = some v) (h : item.Tolerates respelling v a) :
    (Record.field name item .required).Tolerates fields spelled a := by
  intro p members hp hspells
  have hspelled := hspells _ hfield
  rw [hgiven] at hspelled
  obtain ⟨w, hw, hunder⟩ := hspelled.of_required
  exact field_of_present name item .required p members w a hunder (h w hw p (hp.member hunder))

/-- A field that is left out is read as what may be left out. -/
theorem tolerates_default {v d : Json} {a b : α} (hfield : ⟨name, .default d, respelling⟩ ∈ fields)
    (hgiven : (spelled.lookup name).getD d = v) (h : item.Tolerates respelling v a)
    (hdefault : item.Tolerates respelling d b) (hd : respelling d d) :
    (Record.field name item (.default b)).Tolerates fields spelled a := by
  intro p members hp hspells
  rcases (hspells _ hfield).of_default with ⟨w, hw, hunder⟩ | ⟨hsame, hunder⟩
  · rw [hgiven] at hw
    exact field_of_present name item _ p members w a hunder (h w hw p (hp.member hunder))
  · -- what is left out spells both `a` and `b`
    have hboth : a = b := by
      obtain rfl := hgiven.symm.trans hsame
      have ha := h v hd .buffer (Place.fits_buffer _)
      exact Except.ok.inj (ha.symm.trans (hdefault v hd .buffer (Place.fits_buffer _)))
    exact field_of_absent name item _ p members a hunder (congrArg some hboth.symm)

theorem tolerates_optional {spell : α → Json} {absent : Record.Absent (Option α)} {o : Option α}
    (hfield : ⟨name, .optional, respelling⟩ ∈ fields) (habsent : absent.member = some none)
    (hgiven : spelled.lookup name = o.map spell)
    (h : ∀ a, o = some a →
      (∀ w, respelling (spell a) w → w ≠ .null) ∧ item.Tolerates respelling (spell a) a) :
    (Record.field name (Decoder.optional item) absent).Tolerates fields spelled o := by
  intro p members hp hspells
  have hspelled := hspells _ hfield
  rw [hgiven] at hspelled
  rcases hspelled.of_optional with ⟨v, w, hv, hw, hunder⟩ | ⟨hnone, hunder⟩
  · obtain ⟨a, rfl, rfl⟩ := Option.map_eq_some_iff.mp hv
    obtain ⟨hne, hread⟩ := h a rfl
    exact field_of_present name _ absent p members w _ hunder
      (optional_of_ne_null (fun hnull => hne w hw (ofJson_eq_null hnull))
        (hread w hw p (hp.member hunder)))
  · obtain rfl := Option.map_eq_none_iff.mp hnone
    rcases hunder with hunder | hunder
    · exact field_of_absent name _ absent p members none hunder habsent
    · exact field_of_present name _ absent p members .null none hunder rfl

theorem tolerates_both {r : Record α} {s : Record β} {a : α} {b : β}
    (hr : r.Tolerates fields spelled a) (hs : s.Tolerates fields spelled b) :
    (r.both s).Tolerates fields spelled (a, b) :=
  fun p members hp hspells =>
    both_ofMembers r s p _ a b (hr p members hp hspells) (hs p members hp hspells)

theorem tolerates_map {r : Record α} {a : α} (f : α → γ)
    (h : r.Tolerates fields spelled a) : (r.map f).Tolerates fields spelled (f a) :=
  fun p members hp hspells => map_ofMembers f r p _ a (h p members hp hspells)

theorem tolerates_decoder {r : Record α} {a : α} (name : String)
    (hnodup : (fields.map Field.name).Nodup) (h : r.Tolerates fields spelled a) :
    (r.decoder name).Tolerates (.object fields) (.object spelled) a := by
  intro w hw p hp
  obtain ⟨-, ns, -, -, -, rfl, -⟩ := id hw
  obtain ⟨q, hq, -, hfits⟩ := Place.Fits.enter (d := depthMembers ns) hp
  exact decoder_object name r p q ns a hq (h q ns hfits (spells_of_object hnodup hw))

end

/-- A variant that is read from what is left of a list of members without the tag is read from
every spelling: the tag may stand anywhere. -/
theorem tolerates_tagged {typeName : String} {variants : List String}
    {content : String → Draft → Except DecodeError α} {fieldsOf : String → List Field}
    {kind : String} {spelled : List (String × Json)} {a : α} (hkind : kind ∈ variants)
    (hnodup : ("type" :: (fieldsOf kind).map Field.name).Nodup)
    (h : ∀ members : List (String × Json),
      (∀ f ∈ fieldsOf kind,
        f.Spells (spelled.lookup f.name) (members.filter (·.1 = f.name))) →
      content kind (.object (Draft.ofMembers members) none) = .ok a) :
    (Decoder.tagged typeName variants content).Tolerates (.tagged fieldsOf)
      (.object (("type", .string kind) :: spelled)) a := by
  rintro w ⟨_, _, hv, hw⟩ p hp
  cases hv
  obtain ⟨-, ns, -, -, -, rfl, -⟩ := id hw
  have hspells := spells_of_object (by simpa using hnodup) hw
  -- one member is the tag, and what stands before and behind it are the others
  obtain ⟨_, htag, hunder⟩ := (hspells _ (List.mem_cons_self ..)).of_required
  obtain rfl : _ = Json.string kind := htag
  obtain ⟨front, back, rfl, hfront, -, hback⟩ := List.filter_eq_cons_iff.mp hunder
  have hothers : ∀ m ∈ front ++ back, m.1 ≠ "type" := by
    intro m hm
    rcases List.mem_append.mp hm with hm | hm
    · simpa using hfront m hm
    · simpa using List.filter_eq_nil_iff.mp hback m hm
  have hdeep : depthMembers (front ++ back) ≤
      depthMembers (front ++ ("type", .string kind) :: back) := by
    simp only [depthMembers_append, depthMembers, depth]
    omega
  rw [tagged_append typeName variants content p kind front back hkind
    (hp.of_le (Nat.succ_le_succ hdeep)) hothers]
  refine h _ fun f hf => ?_
  have hne : f.name ≠ "type" := fun heq =>
    (List.nodup_cons.mp hnodup).1 (heq ▸ List.mem_map_of_mem hf)
  have hfield := hspells f (List.mem_cons_of_mem _ hf)
  simpa [List.lookup_cons, beq_eq_false_iff_ne.mpr hne, Ne.symm hne] using hfield

/-- However a stored value is spelled, it is read as the same, from another spelling and from each
of its texts, unless it is nested too deep. -/
def Tolerant (item : Decoder α) (toJson : α → Json) (respelling : Respelling)
    (stored : α → Prop) : Prop :=
  ∀ (a : α) (w : Json), stored a → respelling (toJson a) w →
    item.ofJson w = .ok a ∧
    (w.depth < 128 →
      (∀ bytes, readDocument bytes = ⟨.ofJson w, false⟩ → item.ofText bytes = .ok a) ∧
      (w.IntegersOnly → item.ofText w.print = .ok a))

theorem ofText_of_readDocument {bytes : List UInt8} {w : Json} {a : α}
    (hbytes : readDocument bytes = ⟨.ofJson w, false⟩) (h : item .text (.ofJson w) = .ok a) :
    item.ofText bytes = .ok a := by
  simp [Decoder.ofText, hbytes, h, bind, Except.bind]

theorem Tolerant.of_tolerates {toJson : α → Json} {stored : α → Prop}
    (h : ∀ a, stored a → item.Tolerates respelling (toJson a) a) :
    Tolerant item toJson respelling stored := by
  intro a w ha hw
  have hvalue := h a ha w hw .value fun horigin => by cases horigin
  refine ⟨hvalue, fun hdepth => ?_⟩
  have htext : item .text (.ofJson w) = .ok a := h a ha w hw .text fun _ => hdepth
  refine ⟨fun bytes hbytes => ofText_of_readDocument hbytes htext, fun hints => ?_⟩
  exact ofText_of_readDocument (by rw [readDocument_print, reread_of_integersOnly w hints]) htext

end
end EchoServer.Json
