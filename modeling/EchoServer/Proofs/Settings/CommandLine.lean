import EchoServer.Proofs.Except
import EchoServer.Settings.CommandLine

namespace EchoServer.Settings

/-- An argument that is no option: a dash has nothing behind it. -/
def Plain (a : String) : Prop := ∀ c cs, a.toList ≠ '-' :: c :: cs

theorem plain_of_head {a : String} (h : a.toList.head? ≠ some '-') : Plain a := by
  intro c cs hlist
  rw [hlist] at h
  exact h rfl

/-- How an option that takes a value is written, with a value attached to it or with none. -/
inductive Spelling (flag : Flag) : Option String → String → Prop
  | name {a : String} (h : a.toList = '-' :: '-' :: flag.name.toList) : Spelling flag none a
  | nameEquals {a value : String}
      (h : a.toList = '-' :: '-' :: (flag.name.toList ++ '=' :: value.toList)) :
      Spelling flag (some value) a
  | letter {a : String} {c : Char} (hc : flag.letter? = some c) (h : a.toList = ['-', c]) :
      Spelling flag none a
  | letterEquals {a value : String} {c : Char} (hc : flag.letter? = some c)
      (h : a.toList = '-' :: c :: '=' :: value.toList) : Spelling flag (some value) a
  | letterAttached {a value : String} {c : Char} (hc : flag.letter? = some c)
      (h : a.toList = '-' :: c :: value.toList) (hvalue : value ≠ "")
      (hequals : ∀ cs, value.toList ≠ '=' :: cs) : Spelling flag (some value) a

/-- The value that an equals sign attaches to a name. -/
def afterName? (cs : List Char) : Option String :=
  match cs.dropWhile (· ≠ '=') with
  | _ :: value => some (String.ofList value)
  | [] => none

/-- The value that is attached to a letter. -/
def afterLetter? (cs : List Char) : Option String :=
  match cs with
  | '=' :: value => some (String.ofList value)
  | [] => none
  | value => some (String.ofList value)

namespace Flag

theorem ofName?_name (flag : Flag) : ofName? flag.name.toList = some flag := by
  cases flag <;> decide +kernel

theorem ofName?_eq_some {flag : Flag} {cs : List Char} (h : ofName? cs = some flag) :
    cs = flag.name.toList := by
  rw [ofName?] at h
  have hname := List.find?_some h
  exact (of_decide_eq_true hname).symm

theorem ofLetter?_eq_some_iff (flag : Flag) (c : Char) :
    ofLetter? c = some flag ↔ flag.letter? = some c := by
  constructor
  · intro h
    rw [ofLetter?] at h
    have hletter := List.find?_some h
    exact of_decide_eq_true hletter
  · intro h
    cases flag <;> cases h <;> decide

theorem name_no_equals (flag : Flag) : '=' ∉ flag.name.toList := by
  cases flag <;> decide +kernel

theorem letter_ne_dash {flag : Flag} {c : Char} (h : flag.letter? = some c) : c ≠ '-' := by
  intro hc
  rw [hc] at h
  cases flag <;> exact absurd h (by decide)

/-- The option that an argument is, and the value attached to it. -/
def ofArgument? (a : String) : Option (Flag × Option String) :=
  match a.toList with
  | '-' :: '-' :: cs =>
    (ofName? (cs.takeWhile (· ≠ '='))).map fun flag => (flag, afterName? cs)
  | '-' :: letter :: cs =>
    (ofLetter? letter).map fun flag =>
      (flag, if flag.takesValue then afterLetter? cs else none)
  | _ => none

end Flag

/-- Up to the first equals sign is the name, and what is behind it is attached. -/
theorem afterName?_eq_iff {name : List Char} (hname : '=' ∉ name) (cs : List Char)
    (attached : Option String) :
    cs.takeWhile (· ≠ '=') = name ∧ afterName? cs = attached ↔
      cs = name ++ attached.elim [] fun value => '=' :: value.toList := by
  have hpass : ∀ c ∈ name, decide (c ≠ '=') = true := by
    intro c hc
    apply decide_eq_true
    intro hequals
    exact hname (hequals ▸ hc)
  constructor
  · intro h
    obtain ⟨htake, hattached⟩ := h
    have hsplit := List.takeWhile_append_dropWhile (p := fun c => decide (c ≠ '=')) (l := cs)
    have hhead := List.head?_dropWhile_not (fun c => decide (c ≠ '=')) cs
    -- what is left behind the name begins with the equals sign, if there is one
    rw [← hsplit, htake, ← hattached, afterName?]
    cases hdrop : cs.dropWhile fun c => decide (c ≠ '=') with
    | nil => rfl
    | cons c value =>
      rw [hdrop] at hhead
      have hc : c = '=' := by simpa using hhead
      rw [hc]
      simp
  · intro h
    rw [h, afterName?, List.takeWhile_append_of_pos hpass, List.dropWhile_append_of_pos hpass]
    cases attached with
    | none => simp
    | some value => simp

theorem afterLetter?_eq_iff (cs : List Char) (attached : Option String) :
    afterLetter? cs = attached ↔
      match attached with
      | none => cs = []
      | some value => cs = '=' :: value.toList ∨
          cs = value.toList ∧ value ≠ "" ∧ ∀ rest, value.toList ≠ '=' :: rest := by
  unfold afterLetter?
  split
  · rename_i rest
    cases attached with
    | none => simp
    | some value =>
      simp only [Option.some.injEq, List.cons.injEq, true_and, ← String.toList_inj,
        String.toList_ofList]
      constructor
      · intro h
        exact Or.inl h
      · intro h
        rcases h with h | ⟨h, -, hequals⟩
        · exact h
        · exact absurd h.symm (hequals rest)
  · cases attached with
    | none => simp
    | some value =>
      constructor
      · intro h
        cases h
      · intro h
        rcases h with h | ⟨h, hvalue, -⟩
        · cases h
        · exact absurd (String.toList_eq_nil_iff.mp h.symm) hvalue
  · rename_i hequals hne
    cases attached with
    | none => simpa using hne
    | some value =>
      simp only [Option.some.injEq, ← String.toList_inj, String.toList_ofList]
      constructor
      · intro h
        rw [h] at hequals hne
        refine Or.inr ⟨h, ?_, hequals⟩
        intro hempty
        exact hne (String.toList_eq_nil_iff.mpr hempty)
      · intro h
        rcases h with h | ⟨h, -⟩
        · exact absurd h (hequals _)
        · exact h

/-- An argument that is not plain has two dashes, or one and a letter. -/
theorem dashes_of_not_plain {a : String} (h : ¬ Plain a) :
    (∃ cs, a.toList = '-' :: '-' :: cs) ∨
      ∃ letter cs, letter ≠ '-' ∧ a.toList = '-' :: letter :: cs := by
  unfold Plain at h
  simp only [Classical.not_forall, Classical.not_not] at h
  obtain ⟨letter, cs, hlist⟩ := h
  by_cases hdash : letter = '-'
  · rw [hdash] at hlist
    exact Or.inl ⟨cs, hlist⟩
  · exact Or.inr ⟨letter, cs, hdash, hlist⟩

theorem ofArgument?_of_plain {a : String} (h : Plain a) : Flag.ofArgument? a = none := by
  unfold Flag.ofArgument?
  split
  · rename_i hlist
    exact absurd hlist (h _ _)
  · rename_i hlist
    exact absurd hlist (h _ _)
  · rfl

theorem argument_of_plain {a : String} (h : Plain a) (g : Given) : g.argument a = g.plain a := by
  unfold Given.argument
  split
  · rename_i hlist
    exact absurd hlist (h _ _)
  · rename_i hlist
    exact absurd hlist (h _ _)
  · rfl

theorem argument_of_not_plain {a : String} (h : ¬ Plain a) (g : Given) :
    g.argument a = match Flag.ofArgument? a with
      | some (flag, attached) => g.option flag attached
      | none => .error (.unknownArgument a) := by
  rcases dashes_of_not_plain h with ⟨cs, hlist⟩ | ⟨letter, cs, hdash, hlist⟩
  · simp only [Given.argument, Flag.ofArgument?, hlist, Given.long]
    cases Flag.ofName? (cs.takeWhile (· ≠ '=')) with
    | none => rfl
    | some flag => rfl
  · simp only [Given.argument, Flag.ofArgument?, hlist, Given.short]
    cases Flag.ofLetter? letter with
    | none => rfl
    | some flag => rfl

theorem ofArgument?_eq_some_iff (flag : Flag) (htakes : flag.takesValue = true)
    (attached : Option String) (a : String) :
    Flag.ofArgument? a = some (flag, attached) ↔ Spelling flag attached a := by
  constructor
  · intro h
    unfold Flag.ofArgument? at h
    split at h
    · rename_i cs hlist
      obtain ⟨found, hfound, hpair⟩ := Option.map_eq_some_iff.mp h
      obtain ⟨rfl, hattached⟩ := Prod.mk.inj hpair
      have hcs := (afterName?_eq_iff found.name_no_equals cs attached).mp
        ⟨Flag.ofName?_eq_some hfound, hattached⟩
      cases attached with
      | none => exact .name (by rw [hlist, hcs]; simp)
      | some value => exact .nameEquals (by rw [hlist, hcs]; rfl)
    · rename_i letter cs hletter hlist
      obtain ⟨found, hfound, hpair⟩ := Option.map_eq_some_iff.mp h
      obtain ⟨rfl, hattached⟩ := Prod.mk.inj hpair
      rw [if_pos htakes, afterLetter?_eq_iff] at hattached
      have hc := (Flag.ofLetter?_eq_some_iff found letter).mp hfound
      cases attached with
      | none => exact .letter hc (by rw [hlist, hattached])
      | some value =>
        rcases hattached with hcs | ⟨hcs, hvalue, hequals⟩
        · exact .letterEquals hc (by rw [hlist, hcs])
        · exact .letterAttached hc (by rw [hlist, hcs]) hvalue hequals
    · cases h
  · intro h
    -- one fact for the two ways to write a name, and one for the three ways with a letter
    have hname (cs : List Char) (hlist : a.toList = '-' :: '-' :: cs)
        (hcs : cs = flag.name.toList ++ attached.elim [] fun value => '=' :: value.toList) :
        Flag.ofArgument? a = some (flag, attached) := by
      obtain ⟨htake, hattached⟩ := (afterName?_eq_iff flag.name_no_equals cs attached).mpr hcs
      simp only [Flag.ofArgument?, hlist, htake, Flag.ofName?_name, hattached, Option.map_some]
    have hletter (c : Char) (cs : List Char) (hc : flag.letter? = some c)
        (hlist : a.toList = '-' :: c :: cs) (hattached : afterLetter? cs = attached) :
        Flag.ofArgument? a = some (flag, attached) := by
      have hfound := (Flag.ofLetter?_eq_some_iff flag c).mpr hc
      simp [Flag.ofArgument?, hlist, Flag.letter_ne_dash hc, hfound, hattached, htakes]
    cases h with
    | name h => exact hname _ h (List.append_nil _).symm
    | nameEquals h => exact hname _ h rfl
    | letter hc h => exact hletter _ _ hc h rfl
    | letterEquals hc h =>
      exact hletter _ _ hc h ((afterLetter?_eq_iff _ _).mpr (Or.inl rfl))
    | letterAttached hc h hvalue hequals =>
      exact hletter _ _ hc h ((afterLetter?_eq_iff _ _).mpr (Or.inr ⟨rfl, hvalue, hequals⟩))

/-- What a command line gives: options with their values, one behind the other. -/
inductive Line : List (Flag × String) → List String → Prop
  | done : Line [] []
  | closed : Line [] ["--"]
  | apart {flag : Flag} {a value : String} {given : List (Flag × String)} {rest : List String}
      (htakes : flag.takesValue = true) (h : Spelling flag none a) (hvalue : Plain value)
      (hrest : Line given rest) : Line ((flag, value) :: given) (a :: value :: rest)
  | attached {flag : Flag} {a value : String} {given : List (Flag × String)} {rest : List String}
      (htakes : flag.takesValue = true) (h : Spelling flag (some value) a)
      (hrest : Line given rest) : Line ((flag, value) :: given) (a :: rest)

theorem Spelling.ne_dashes {flag : Flag} (htakes : flag.takesValue = true)
    {attached : Option String} {a : String} (h : Spelling flag attached a) : a ≠ "--" := by
  intro hdashes
  have hnone : Flag.ofArgument? "--" = none := by decide +kernel
  rw [← ofArgument?_eq_some_iff flag htakes, hdashes, hnone] at h
  cases h

theorem Plain.ne_dashes {a : String} (h : Plain a) : a ≠ "--" := by
  intro hdashes
  apply h '-' []
  rw [hdashes]
  decide +kernel

/-- An argument is one option at most. -/
theorem Spelling.unique {flag flag' : Flag} {attached attached' : Option String} {a : String}
    (htakes : flag.takesValue = true) (htakes' : flag'.takesValue = true)
    (h : Spelling flag attached a) (h' : Spelling flag' attached' a) :
    flag' = flag ∧ attached' = attached := by
  rw [← ofArgument?_eq_some_iff _ htakes] at h
  rw [← ofArgument?_eq_some_iff _ htakes', h] at h'
  obtain ⟨hflag, hattached⟩ := Prod.mk.inj (Option.some.inj h')
  exact ⟨hflag.symm, hattached.symm⟩

/-- A command line is read in one way. -/
theorem Line.unique {given given' : List (Flag × String)} {args : List String}
    (h : Line given args) (h' : Line given' args) : given' = given := by
  induction h generalizing given' with
  | done =>
    cases h'
    rfl
  | closed =>
    cases h' with
    | closed => rfl
    | attached htakes h _ => exact absurd rfl (h.ne_dashes htakes)
  | apart htakes h hvalue hrest ih =>
    cases h' with
    | apart htakes' h' _ hrest' =>
      obtain ⟨rfl, -⟩ := h.unique htakes htakes' h'
      rw [ih hrest']
    | attached htakes' h' _ => cases (h.unique htakes htakes' h').2
  | attached htakes h hrest ih =>
    cases h' with
    | closed => exact absurd rfl (h.ne_dashes htakes)
    | apart htakes' h' _ _ => cases (h.unique htakes htakes' h').2
    | attached htakes' h' hrest' =>
      obtain ⟨rfl, hvalue⟩ := h.unique htakes htakes' h'
      rw [ih hrest', Option.some.inj hvalue]

/-- Takes the values of options in turn. -/
def giveAll (o : Overrides) (given : List (Flag × String)) : Except Stop Overrides :=
  given.foldlM (fun o option => o.give option.1 option.2) o

theorem giveAll_cons_eq_ok_iff (o o' : Overrides) (flag : Flag) (value : String)
    (given : List (Flag × String)) :
    giveAll o ((flag, value) :: given) = .ok o' ↔
      ∃ o₁, o.give flag value = .ok o₁ ∧ giveAll o₁ given = .ok o' := by
  rw [giveAll, List.foldlM_cons]
  constructor
  · intro h
    exact exists_of_bind_ok h
  · intro h
    obtain ⟨o₁, hgive, hrest⟩ := h
    rw [hgive]
    exact hrest

theorem give_ne_ok {flag : Flag} (h : flag.takesValue = false) (o o' : Overrides)
    (value : String) : o.give flag value ≠ .ok o' := by
  intro hgive
  cases flag with
  | help => cases hgive
  | version => cases hgive
  | _ => cases h

/-- An option is read on exactly if it takes a value and the option before it has got its own. -/
theorem option_eq_ok_iff (g g' : Given) (flag : Flag) (attached : Option String) :
    g.option flag attached = .ok g' ↔
      flag.takesValue = true ∧ ∃ o, g.settle = .ok o ∧
        match attached with
        | none => g' = ⟨o, some (flag, none)⟩
        | some value => ∃ o', o.give flag value = .ok o' ∧ g' = ⟨o', none⟩ := by
  unfold Given.option
  constructor
  · intro h
    split at h
    · rename_i htakes
      obtain ⟨o, hsettle, h⟩ := exists_of_bind_ok h
      refine ⟨htakes, o, hsettle, ?_⟩
      cases attached with
      | none => exact (Except.ok.inj h).symm
      | some value =>
        obtain ⟨o', hgive, h⟩ := exists_of_bind_ok h
        exact ⟨o', hgive, (Except.ok.inj h).symm⟩
    · rename_i htakes
      cases attached with
      | none =>
        obtain ⟨o, -, h⟩ := exists_of_bind_ok h
        obtain ⟨o', hgive, -⟩ := exists_of_bind_ok h
        exact absurd hgive (give_ne_ok (Bool.eq_false_iff.mpr htakes) o o' "")
      | some value => cases h
  · intro h
    obtain ⟨htakes, o, hsettle, h⟩ := h
    rw [if_pos htakes, hsettle]
    cases attached with
    | none =>
      rw [h]
      rfl
    | some value =>
      obtain ⟨o', hgive, hg'⟩ := h
      rw [hg']
      show (o.give flag value >>= fun o => pure (⟨o, none⟩ : Given)) = _
      rw [hgive]
      rfl

/-- An argument is read on as a value that is waited for, or as an option. -/
theorem argument_eq_ok {g g' : Given} {a : String} (h : g.argument a = .ok g') :
    (∃ flag, Plain a ∧ g.pending = some (flag, none) ∧
      g' = ⟨g.overrides, some (flag, some a)⟩) ∨
    ∃ flag attached, flag.takesValue = true ∧ Spelling flag attached a ∧
      g.option flag attached = .ok g' := by
  by_cases hplain : Plain a
  · left
    rw [argument_of_plain hplain, Given.plain] at h
    split at h
    · rename_i flag hpending
      exact ⟨flag, hplain, hpending, (Except.ok.inj h).symm⟩
    · cases h
  · right
    rw [argument_of_not_plain hplain] at h
    split at h
    · rename_i flag attached hof
      have htakes := ((option_eq_ok_iff g g' flag attached).mp h).1
      exact ⟨flag, attached, htakes, (ofArgument?_eq_some_iff flag htakes attached a).mp hof, h⟩
    · cases h

theorem argument_of_spelling {flag : Flag} {attached : Option String} {a : String}
    (htakes : flag.takesValue = true) (h : Spelling flag attached a) (g : Given) :
    g.argument a = g.option flag attached := by
  have hof := (ofArgument?_eq_some_iff flag htakes attached a).mpr h
  have hplain : ¬ Plain a := by
    intro hplain
    rw [ofArgument?_of_plain hplain] at hof
    cases hof
  rw [argument_of_not_plain hplain, hof]

theorem readArguments_dashes (g : Given) : readArguments g ["--"] = g.settle := if_pos rfl

theorem readArguments_cons_eq_ok_iff {a : String} (h : a ≠ "--") (g : Given)
    (rest : List String) (o : Overrides) :
    readArguments g (a :: rest) = .ok o ↔
      ∃ g', g.argument a = .ok g' ∧ readArguments g' rest = .ok o := by
  simp only [readArguments, if_neg h]
  cases g.argument a with
  | ok g' => simp
  | error s => simp

/-- A line is read on from what was given before, if all of its values are taken. -/
theorem readArguments_of_line {given : List (Flag × String)} {args : List String}
    (h : Line given args) : ∀ {g : Given} {o o' : Overrides}, g.settle = .ok o →
      giveAll o given = .ok o' → readArguments g args = .ok o' := by
  induction h with
  | done =>
    intro g o o' hsettle hgive
    rw [readArguments, hsettle]
    exact hgive
  | closed =>
    intro g o o' hsettle hgive
    rw [readArguments_dashes, hsettle]
    exact hgive
  | @apart flag a value given rest htakes h hvalue hrest ih =>
    intro g o o' hsettle hgive
    obtain ⟨o₁, hfirst, hgive⟩ := (giveAll_cons_eq_ok_iff o o' flag value given).mp hgive
    have hopen := (option_eq_ok_iff g _ flag none).mpr ⟨htakes, o, hsettle, rfl⟩
    rw [readArguments_cons_eq_ok_iff (h.ne_dashes htakes), argument_of_spelling htakes h]
    refine ⟨_, hopen, ?_⟩
    -- the value is only noted here; it is taken when the reading goes on
    rw [readArguments_cons_eq_ok_iff hvalue.ne_dashes, argument_of_plain hvalue]
    exact ⟨_, rfl, ih hfirst hgive⟩
  | @attached flag a value given rest htakes h hrest ih =>
    intro g o o' hsettle hgive
    obtain ⟨o₁, hfirst, hgive⟩ := (giveAll_cons_eq_ok_iff o o' flag value given).mp hgive
    have hopen := (option_eq_ok_iff g _ flag (some value)).mpr
      ⟨htakes, o, hsettle, o₁, hfirst, rfl⟩
    rw [readArguments_cons_eq_ok_iff (h.ne_dashes htakes), argument_of_spelling htakes h]
    exact ⟨_, hopen, ih rfl hgive⟩

/-- What is read on is a line, behind the value that is still waited for. -/
theorem line_of_readArguments {args : List String} : ∀ {g : Given} {o' : Overrides},
    readArguments g args = .ok o' →
      (∃ o given, g.settle = .ok o ∧ Line given args ∧ giveAll o given = .ok o') ∨
      ∃ flag value rest given, g.pending = some (flag, none) ∧ args = value :: rest ∧
        Plain value ∧ Line given rest ∧
        giveAll g.overrides ((flag, value) :: given) = .ok o' := by
  induction args with
  | nil =>
    intro g o' h
    exact Or.inl ⟨o', [], h, .done, rfl⟩
  | cons a rest ih =>
    intro g o' h
    by_cases hdashes : a = "--"
    · rw [hdashes] at h ⊢
      cases rest with
      | nil => exact Or.inl ⟨o', [], h, .closed, rfl⟩
      | cons b rest => cases h
    · obtain ⟨g', hargument, h⟩ := (readArguments_cons_eq_ok_iff hdashes g rest o').mp h
      rcases argument_eq_ok hargument with
        ⟨flag, hplain, hpending, rfl⟩ | ⟨flag, attached, htakes, hspelling, hoption⟩
      · -- the value that was waited for
        right
        rcases ih h with ⟨o, given, hsettle, hline, hgive⟩ | ⟨_, _, _, _, hpending', -⟩
        · refine ⟨flag, a, rest, given, hpending, rfl, hplain, hline, ?_⟩
          exact (giveAll_cons_eq_ok_iff _ _ _ _ _).mpr ⟨o, hsettle, hgive⟩
        · cases hpending'
      · -- an option, before which the one that was waited for has got its value
        left
        obtain ⟨-, o, hsettle, hoption⟩ := (option_eq_ok_iff _ _ _ _).mp hoption
        cases attached with
        | none =>
          rw [hoption] at h
          rcases ih h with ⟨_, _, hsettle', -⟩ |
            ⟨flag', value, rest', given, hpending', rfl, hvalue, hline, hgive⟩
          · cases hsettle'
          · obtain ⟨rfl, -⟩ := Prod.mk.inj (Option.some.inj hpending')
            exact ⟨o, _, hsettle, .apart htakes hspelling hvalue hline, hgive⟩
        | some value =>
          obtain ⟨o₁, hfirst, hg'⟩ := hoption
          rw [hg'] at h
          rcases ih h with ⟨o₂, given, hsettle', hline, hgive⟩ | ⟨_, _, _, _, hpending', -⟩
          · obtain rfl := Except.ok.inj hsettle'
            refine ⟨o, _, hsettle, .attached htakes hspelling hline, ?_⟩
            exact (giveAll_cons_eq_ok_iff _ _ _ _ _).mpr ⟨o₁, hfirst, hgive⟩
          · cases hpending'

/-- A command line is accepted exactly if it is a line of options that all take their values. -/
theorem ofArguments_eq_ok_iff (args : List String) (o : Overrides) :
    Overrides.ofArguments args = .ok o ↔
      ∃ given, Line given args ∧ giveAll .empty given = .ok o := by
  constructor
  · intro h
    rcases line_of_readArguments h with
      ⟨o₁, given, hsettle, hline, hgive⟩ | ⟨_, _, _, _, hpending, -⟩
    · obtain rfl := Except.ok.inj hsettle
      exact ⟨given, hline, hgive⟩
    · cases hpending
  · intro h
    obtain ⟨given, hline, hgive⟩ := h
    exact readArguments_of_line hline rfl hgive

end EchoServer.Settings
