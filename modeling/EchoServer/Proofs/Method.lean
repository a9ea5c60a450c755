import EchoServer.Method
import EchoServer.Proofs.Metadata
import EchoServer.Text.Blank
import Mathlib.Data.List.Nodup

namespace EchoServer.Method

open Metadata (SameUpToCase)

/-- A path of a method: its name, alone or behind its service, with a slash in front or none. -/
def IsPath (path : String) (m : Method) : Prop :=
  ∃ rest, (path = rest ∨ path = "/" ++ rest) ∧
    (rest = m.name ∨ rest = m.service ++ "/" ++ m.name)

theorem splitLast_eq_none_iff (cs : List Char) : splitLast cs = none ↔ '/' ∉ cs := by
  induction cs with
  | nil => simp [splitLast]
  | cons c cs ih =>
    rw [splitLast, List.mem_cons, not_or, ← ih]
    cases hcs : splitLast cs with
    | none => simp [eq_comm]
    | some cut => simp

theorem splitLast_append (front : List Char) {back : List Char} (h : '/' ∉ back) :
    splitLast (front ++ '/' :: back) = some (front, back) := by
  induction front with
  | nil =>
    rw [List.nil_append, splitLast, (splitLast_eq_none_iff back).mpr h]
    rfl
  | cons c front ih => rw [List.cons_append, splitLast, ih]

/-- Nothing is lost at the cut, and there is no slash behind it. -/
theorem splitLast_eq_some_iff (cs front back : List Char) :
    splitLast cs = some (front, back) ↔ cs = front ++ '/' :: back ∧ '/' ∉ back := by
  constructor
  · intro h
    induction cs generalizing front with
    | nil => cases h
    | cons c cs ih =>
      rw [splitLast] at h
      split at h
      · rename_i front' back' hcs
        obtain ⟨rfl, rfl⟩ := Prod.mk.inj (Option.some.inj h)
        obtain ⟨hwhole, hback⟩ := ih front' hcs
        exact ⟨by rw [hwhole]; rfl, hback⟩
      · rename_i hcs
        obtain ⟨hc, hcut⟩ := Option.ite_none_right_eq_some.mp h
        obtain ⟨rfl, rfl⟩ := Prod.mk.inj (Option.some.inj hcut)
        exact ⟨by rw [hc]; rfl, (splitLast_eq_none_iff cs).mp hcs⟩
  · intro h
    obtain ⟨rfl, hback⟩ := h
    exact splitLast_append front hback

theorem ofName?_eq_some_iff (name : List Char) (m : Method) :
    ofName? name = some m ↔ name = m.name.toList := by
  constructor
  · intro h
    have hname := List.find?_some h
    exact (of_decide_eq_true hname).symm
  · intro h
    rw [h]
    cases m <;> rfl

theorem slash_not_mem_name (m : Method) : '/' ∉ m.name.toList := by
  cases m <;> decide

/-- The method that a path without a slash in front leads to. -/
def ofRest? (cs : List Char) : Option Method :=
  match splitLast cs with
  | none => ofName? cs
  | some (front, back) => (ofName? back).filter fun m => m.service.toList = front

theorem ofRest?_eq_some_iff (cs : List Char) (m : Method) :
    ofRest? cs = some m ↔
      cs = m.name.toList ∨ cs = m.service.toList ++ '/' :: m.name.toList := by
  unfold ofRest?
  split
  · rename_i hcs
    have hno := (splitLast_eq_none_iff cs).mp hcs
    rw [ofName?_eq_some_iff]
    constructor
    · intro h
      exact Or.inl h
    · intro h
      rcases h with h | h
      · exact h
      · rw [h] at hno
        exact absurd (List.mem_append_right _ List.mem_cons_self) hno
  · rename_i front back hcs
    obtain ⟨hwhole, hback⟩ := (splitLast_eq_some_iff cs front back).mp hcs
    rw [Option.filter_eq_some_iff, ofName?_eq_some_iff, decide_eq_true_eq]
    constructor
    · intro h
      obtain ⟨hname, hservice⟩ := h
      rw [hwhole, hname, hservice]
      exact Or.inr rfl
    · intro h
      rcases h with h | h
      · -- a name has no slash
        rw [h] at hwhole
        have hslash : '/' ∈ m.name.toList := by
          rw [hwhole]
          exact List.mem_append_right front List.mem_cons_self
        exact absurd hslash (slash_not_mem_name m)
      · rw [h, splitLast_append _ (slash_not_mem_name m)] at hcs
        obtain ⟨rfl, rfl⟩ := Prod.mk.inj (Option.some.inj hcs)
        exact ⟨rfl, rfl⟩

theorem toList_slash (rest : String) : ("/" ++ rest).toList = '/' :: rest.toList := by
  rw [String.toList_append]
  rfl

theorem toList_append_name (front : String) (m : Method) :
    (front ++ "/" ++ m.name).toList = front.toList ++ '/' :: m.name.toList := by
  rw [String.append_assoc, String.toList_append, toList_slash]

theorem ofPath?_slash (rest : String) : ofPath? ("/" ++ rest) = ofRest? rest.toList := by
  unfold ofPath?
  rw [toList_slash]
  rfl

theorem ofPath?_of_no_slash {path : String} (h : ∀ cs, path.toList ≠ '/' :: cs) :
    ofPath? path = ofRest? path.toList := by
  unfold ofPath?
  split
  · rename_i cs hcs
    exact absurd hcs (h cs)
  · rfl

/-- Neither a name nor a service begins with a slash. -/
theorem no_slash_in_front {m : Method} {rest : String}
    (h : rest = m.name ∨ rest = m.service ++ "/" ++ m.name) (cs : List Char) :
    rest.toList ≠ '/' :: cs := by
  have hfronts (m : Method) : m.name.toList.head? ≠ some '/' ∧
      (m.service ++ "/" ++ m.name).toList.head? ≠ some '/' := by
    cases m <;> decide +kernel
  intro hcs
  rcases h with rfl | rfl
  · exact (hfronts m).1 (by rw [hcs]; rfl)
  · exact (hfronts m).2 (by rw [hcs]; rfl)

theorem ofPath?_eq_some_iff (path : String) (m : Method) :
    ofPath? path = some m ↔ IsPath path m := by
  have hrest (rest : String) : ofRest? rest.toList = some m ↔
      rest = m.name ∨ rest = m.service ++ "/" ++ m.name := by
    rw [ofRest?_eq_some_iff, ← toList_append_name, String.toList_inj, String.toList_inj]
  constructor
  · intro h
    by_cases hslash : ∃ cs, path.toList = '/' :: cs
    · obtain ⟨cs, hcs⟩ := hslash
      have hpath : path = "/" ++ String.ofList cs := by
        rw [← String.toList_inj, hcs, toList_slash, String.toList_ofList]
      rw [hpath, ofPath?_slash, hrest] at h
      exact ⟨_, Or.inr hpath, h⟩
    · rw [ofPath?_of_no_slash (not_exists.mp hslash), hrest] at h
      exact ⟨path, Or.inl rfl, h⟩
  · intro h
    obtain ⟨rest, rfl | rfl, hnames⟩ := h
    · rw [ofPath?_of_no_slash (no_slash_in_front hnames), hrest]
      exact hnames
    · rw [ofPath?_slash, hrest]
      exact hnames

/-- The paths of a method, letter by letter. -/
def paths (m : Method) : List (List Char) :=
  let full := m.service.toList ++ '/' :: m.name.toList
  [m.name.toList, full, '/' :: m.name.toList, '/' :: full]

theorem IsPath.mem_paths {path : String} {m : Method} (h : IsPath path m) :
    path.toList ∈ m.paths := by
  simp only [paths, List.mem_cons, List.not_mem_nil, or_false]
  obtain ⟨rest, rfl | rfl, rfl | rfl⟩ := h
  · exact Or.inl rfl
  · exact Or.inr (Or.inl (toList_append_name _ m))
  · exact Or.inr (Or.inr (Or.inl (toList_slash _)))
  · refine Or.inr (Or.inr (Or.inr ?_))
    rw [toList_slash, toList_append_name]

theorem mem_paths_of_ofPath? {path : String} {m : Method} (h : ofPath? path = some m) :
    path.toList ∈ all.flatMap paths := by
  have hall : m ∈ all := by cases m <;> decide
  exact List.mem_flatMap.mpr ⟨m, hall, ((ofPath?_eq_some_iff _ _).mp h).mem_paths⟩

/-- What is true of no path of a method leads nowhere. -/
theorem ofPath?_eq_none_of_apart {P : List Char → Prop} (hapart : ∀ cs ∈ all.flatMap paths, ¬ P cs)
    {path : String} (h : P path.toList) : ofPath? path = none := by
  cases hpath : ofPath? path with
  | none => rfl
  | some m => exact absurd h (hapart _ (mem_paths_of_ofPath? hpath))

/-- Two paths of methods differ by more than the case of their letters. -/
theorem eq_of_sameUpToCase {path path' : String} (h : path.toList ∈ all.flatMap paths)
    (h' : path'.toList ∈ all.flatMap paths) (hcase : SameUpToCase path path') : path = path' := by
  have hnodup : ((all.flatMap paths).map fun cs => cs.map Char.toLower).Nodup := by decide +kernel
  have hlower : Metadata.lowerAscii path = Metadata.lowerAscii path' :=
    of_decide_eq_true ((Metadata.sameKey_iff path path').mpr hcase)
  exact String.toList_inj.mp (List.inj_on_of_nodup_map hnodup h h' (String.ofList_inj.mp hlower))

/-- What stands before the name of a method, and the method, can be told from the path. -/
theorem eq_of_append_name {front front' : String} {m m' : Method}
    (h : front ++ "/" ++ m.name = front' ++ "/" ++ m'.name) : front = front' ∧ m = m' := by
  have hsplit (front : String) (m : Method) :
      splitLast (front ++ "/" ++ m.name).toList = some (front.toList, m.name.toList) := by
    rw [toList_append_name]
    exact splitLast_append front.toList (slash_not_mem_name m)
  have hcut := hsplit front m
  rw [h, hsplit front' m'] at hcut
  obtain ⟨hfront, hname⟩ := Prod.mk.inj (Option.some.inj hcut)
  have hm : ofName? m.name.toList = some m := (ofName?_eq_some_iff _ m).mpr rfl
  have hm' : ofName? m.name.toList = some m' := (ofName?_eq_some_iff _ m').mpr hname.symm
  exact ⟨String.toList_inj.mp hfront.symm, Option.some.inj (hm.symm.trans hm')⟩

/-- The name of a method leads to it behind nothing but its service. -/
theorem service_of_ofPath? {m m' : Method} {service : String}
    (h : ofPath? (service ++ "/" ++ m.name) = some m') :
    service ∈ ["", m.service, "/" ++ m.service] := by
  obtain ⟨rest, hpath, hrest⟩ := (ofPath?_eq_some_iff _ _).mp h
  rcases hrest with rfl | rfl
  · rcases hpath with hpath | hpath
    · -- a name alone has no slash
      have hslash : '/' ∈ m'.name.toList := by
        rw [← hpath, toList_append_name]
        exact List.mem_append_right _ List.mem_cons_self
      exact absurd hslash (slash_not_mem_name m')
    · rw [← String.empty_append (s := "/" ++ _), ← String.append_assoc] at hpath
      obtain ⟨rfl, -⟩ := eq_of_append_name hpath
      simp
  · rcases hpath with hpath | hpath
    · obtain ⟨rfl, rfl⟩ := eq_of_append_name hpath
      simp
    · rw [← String.append_assoc, ← String.append_assoc] at hpath
      obtain ⟨rfl, rfl⟩ := eq_of_append_name hpath
      simp

/-- A path leads to a method exactly if, without the slash that it may have in front, it is the name
of the method, or its service, a slash and its name. -/
theorem paths_lead_to_methods :
    (∀ path m, ofPath? path = some m ↔ IsPath path m) ∧
    (∀ m : Method, m.service = if m = .getOperation then "google.longrunning.Operations"
      else "google.showcase.v1beta1.Echo") ∧
    (∀ path m m', IsPath path m → IsPath path m' → m = m') ∧
    (∀ m : Method, ofPath? (m.service ++ "/" ++ m.name) = some m) ∧
    (∀ path, ofPath? path = none ↔ ∀ m, ¬ IsPath path m) ∧
    (∀ (m : Method) service, service ∉ ["", m.service, "/" ++ m.service] →
      ofPath? (service ++ "/" ++ m.name) = none) ∧
    (∀ front behind, ofPath? (front ++ "//" ++ behind) = none) ∧
    (∀ front, ofPath? (front ++ "/") = none) ∧
    (∀ path path', ofPath? path ≠ none → SameUpToCase path path' → path' ≠ path →
      ofPath? path' = none) ∧
    (∀ path, (∃ c ∈ path.toList, Text.isBlank c = true) → ofPath? path = none) ∧
    ofPath? "" = none := by
  refine ⟨ofPath?_eq_some_iff, ?_, ?_, ?_, ?_, ?_, ?_, ?_, ?_, ?_, ?_⟩
  · intro m
    cases m <;> rfl
  · intro path m m' h h'
    rw [← ofPath?_eq_some_iff] at h h'
    exact Option.some.inj (h.symm.trans h')
  · intro m
    exact (ofPath?_eq_some_iff _ m).mpr ⟨_, Or.inl rfl, Or.inr rfl⟩
  · intro path
    simp only [← ofPath?_eq_some_iff, Option.eq_none_iff_forall_ne_some, ne_eq]
  · intro m service hservice
    cases hpath : ofPath? (service ++ "/" ++ m.name) with
    | none => rfl
    | some m' => exact absurd (service_of_ofPath? hpath) hservice
  · intro front behind
    have hapart : ∀ cs ∈ all.flatMap paths, ¬ ['/', '/'] <:+: cs := by decide +kernel
    apply ofPath?_eq_none_of_apart hapart
    rw [String.toList_append, String.toList_append]
    exact ⟨front.toList, behind.toList, rfl⟩
  · intro front
    have hapart : ∀ cs ∈ all.flatMap paths, ¬ cs.getLast? = some '/' := by decide +kernel
    apply ofPath?_eq_none_of_apart hapart
    rw [String.toList_append]
    exact List.getLast?_concat
  · intro path path' hpath hcase hne
    obtain ⟨m, hm⟩ := Option.ne_none_iff_exists'.mp hpath
    cases hpath' : ofPath? path' with
    | none => rfl
    | some m' =>
      have heq := eq_of_sameUpToCase (mem_paths_of_ofPath? hm) (mem_paths_of_ofPath? hpath') hcase
      exact absurd heq.symm hne
  · intro path h
    have hapart : ∀ cs ∈ all.flatMap paths, ¬ cs.any Text.isBlank = true := by decide +kernel
    exact ofPath?_eq_none_of_apart hapart (List.any_eq_true.mpr h)
  · decide +kernel

/-- Every way to lead nowhere: a name behind a service that is not its own, two slashes in front, a
slash at the end, letters of another case, and a blank. -/
theorem paths_lead_to_methods_elsewhere :
    ofPath? (operationsService ++ "/" ++ name .wait) = none ∧ ofPath? "//Echo" = none ∧
      ofPath? "Echo/" = none ∧ ofPath? "pagedExpand" = none ∧ ofPath? "Chat\u2003" = none ∧
      ¬ IsPath (echoService ++ "/" ++ name .wait) .block := by
  obtain ⟨-, -, hone, hpath, -, hservice, hdouble, hlast, hcase, hblank, -⟩ := paths_lead_to_methods
  refine ⟨?_, hdouble "" "Echo", hlast "Echo", ?_, ?_, ?_⟩
  · exact hservice .wait operationsService (by decide +kernel)
  · exact hcase "PagedExpand" "pagedExpand" (by decide +kernel) (by decide +kernel)
      (by decide +kernel)
  · exact hblank "Chat\u2003" ⟨'\u2003', by decide +kernel, by decide⟩
  · intro hblock
    have hwait : IsPath (echoService ++ "/" ++ name .wait) .wait :=
      (ofPath?_eq_some_iff _ _).mp (hpath .wait)
    exact absurd (hone _ _ _ hblock hwait) (by decide)

end EchoServer.Method
