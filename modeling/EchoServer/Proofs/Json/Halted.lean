import EchoServer.Proofs.Json.Values

namespace EchoServer.Json

/-- No list. -/
def Draft.Leaf : Draft → Prop
  | .array _ _ => False
  | .object _ _ => False
  | _ => True

/-- Nobody gets a value out of this draft who looks at all of it. -/
def Draft.Unread (d : Draft) : Prop := ∀ p v, Decoder.json p d ≠ .ok v

/-- A member that has no key, or nothing that can be read. -/
def UnreadMember (m : Key × Draft) : Prop := (∀ s, Decoder.key m.1 ≠ .ok s) ∨ m.2.Unread

/-- Reading stopped at the end of this draft: it is a fault, or a list that breaks off or has a part
that cannot be read. -/
def Draft.Halted : Draft → Prop
  | .array items stop => stop ≠ none ∨ ∃ d ∈ items, d.Unread
  | .object members stop => stop ≠ none ∨ ∃ m ∈ members, UnreadMember m
  | .fault _ => True
  | _ => False

theorem stop_of_checkStop {stop : Option Fault} {u : Unit} (h : checkStop stop = .ok u) :
    stop = none := by
  cases stop with
  | none => rfl
  | some f => cases h

theorem not_unread_of_items {p : Place} {items : List Draft} {vs : List Json}
    (h : Decoder.jsonItems p items = .ok vs) : ∀ d ∈ items, ¬ d.Unread := by
  induction items generalizing vs with
  | nil => simp
  | cons d items ih =>
    obtain ⟨v, hv, hrest⟩ := exists_of_bind_ok h
    obtain ⟨ws, hws, -⟩ := exists_of_bind_ok hrest
    intro x hx
    rcases List.mem_cons.mp hx with rfl | hx
    · exact fun hunread => hunread p v hv
    · exact ih hws x hx

theorem not_unread_of_members {p : Place} {members : List (Key × Draft)}
    {vs : List (String × Json)} (h : Decoder.jsonMembers p members = .ok vs) :
    ∀ m ∈ members, ¬ UnreadMember m := by
  induction members generalizing vs with
  | nil => simp
  | cons m members ih =>
    obtain ⟨k, d⟩ := m
    obtain ⟨s, hs, hrest⟩ := exists_of_bind_ok h
    obtain ⟨v, hv, hrest⟩ := exists_of_bind_ok hrest
    obtain ⟨ws, hws, -⟩ := exists_of_bind_ok hrest
    intro x hx
    rcases List.mem_cons.mp hx with rfl | hx
    · rintro (hkey | hunread)
      · exact hkey s hs
      · exact hunread p v hv
    · exact ih hws x hx

theorem Draft.Halted.unread {d : Draft} (h : d.Halted) : d.Unread := by
  intro p v hv
  cases d with
  | array items stop =>
    unfold Decoder.json at hv
    obtain ⟨q, -, hv⟩ := exists_of_bind_ok hv
    obtain ⟨vs, hitems, hv⟩ := exists_of_bind_ok hv
    obtain ⟨u, hstop, -⟩ := exists_of_bind_ok hv
    rcases h with hne | ⟨d, hd, hunread⟩
    · exact hne (stop_of_checkStop hstop)
    · exact not_unread_of_items hitems d hd hunread
  | object members stop =>
    unfold Decoder.json at hv
    obtain ⟨q, -, hv⟩ := exists_of_bind_ok hv
    obtain ⟨vs, hmembers, hv⟩ := exists_of_bind_ok hv
    obtain ⟨u, hstop, -⟩ := exists_of_bind_ok hv
    rcases h with hne | ⟨m, hm, hunread⟩
    · exact hne (stop_of_checkStop hstop)
    · exact not_unread_of_members hmembers m hm hunread
  | fault f => cases hv
  | _ => exact h

/-- Pieces join to a text only if their string is closed. -/
theorem closed_of_joinPieces {stop : StringEnd} {bytes : List UInt8} (pieces : List Piece)
    (acc : List UInt8) (h : joinPieces stop acc pieces = .ok bytes) : stop.skipError = none := by
  match pieces with
  | [] =>
    unfold joinPieces at h
    split at h
    · assumption
    · cases h
  | .byte b :: rest => exact closed_of_joinPieces rest _ h
  | .unit n :: rest =>
    unfold joinPieces at h
    split at h
    · cases h
    split at h
    · split at h
      · split at h
        · exact closed_of_joinPieces _ _ h
        · cases h
      · cases h
      · cases h
    · exact closed_of_joinPieces _ _ h

theorem halted_readWord {d d' : Draft} {cs : List Char} {bs : List UInt8}
    (h : readWord d cs bs = (d', none)) : d'.Halted := by
  fun_induction readWord d cs bs with
  | case1 bs => cases h
  | case2 => cases h; trivial
  | case3 c cs b bs hb ih => exact ih h
  | case4 => cases h; trivial

theorem halted_readString {bs : List UInt8} {d : Draft} (h : readString bs = (d, none)) :
    d.Halted := by
  unfold readString at h
  rcases hscan : scanString [] bs with ⟨pieces, stop⟩
  simp only [hscan] at h
  cases hvalue : stringValue pieces stop with
  | error e =>
    simp only [hvalue] at h
    obtain ⟨rfl, -⟩ := Prod.mk.inj h
    trivial
  | ok s =>
    have hclosed : stop.skipError = none := by
      unfold stringValue at hvalue
      split at hvalue
      · cases hvalue
      · rename_i hjoin
        exact closed_of_joinPieces pieces [] hjoin
    cases stop with
    | closed rest => simp [hvalue] at h
    | _ => cases hclosed

/-- The reading of the digits of an exponent behind its sign. -/
def exponentReading (n : Numeral) (negative : Bool) (bs : List UInt8) : Reading :=
  if (spanDigits bs).1.isEmpty then brokenNumber (spanDigits bs).2
  else numberReading { n with exponent := some (negative, (spanDigits bs).1) } (spanDigits bs).2

/-- Either there is no exponent, or its digits stand behind a letter and perhaps a sign. -/
theorem readExponent_cases (n : Numeral) (bs : List UInt8) :
    readExponent n bs = numberReading n bs ∨
      ∃ b more negative digits, bs = b :: more ∧ isDigit b = false ∧ b ≠ 0x0D ∧
        (digits = more ∨ ∃ c, more = c :: digits) ∧
        readExponent n bs = exponentReading n negative digits := by
  cases bs with
  | nil => exact Or.inl rfl
  | cons b more =>
    unfold readExponent
    dsimp only
    split
    · rename_i hb
      have hletter : isDigit b = false ∧ b ≠ 0x0D := by
        simp only [Bool.or_eq_true, decide_eq_true_eq] at hb
        rcases hb with rfl | rfl <;> decide
      right
      cases more with
      | nil => exact ⟨b, [], false, [], rfl, hletter.1, hletter.2, Or.inl rfl, rfl⟩
      | cons c more =>
        dsimp only
        split
        · exact ⟨b, c :: more, false, more, rfl, hletter.1, hletter.2, Or.inr ⟨c, rfl⟩, rfl⟩
        split
        · exact ⟨b, c :: more, true, more, rfl, hletter.1, hletter.2, Or.inr ⟨c, rfl⟩, rfl⟩
        · exact ⟨b, c :: more, false, c :: more, rfl, hletter.1, hletter.2, Or.inl rfl, rfl⟩
    · exact Or.inl rfl

theorem halted_brokenNumber {bs : List UInt8} {d : Draft} (h : brokenNumber bs = (d, none)) :
    d.Halted := by
  cases h
  trivial

theorem numberReading_ne_none {n : Numeral} {bs : List UInt8} {d : Draft} :
    numberReading n bs ≠ (d, none) := by
  unfold numberReading
  split <;> simp

theorem halted_readExponent {n : Numeral} {bs : List UInt8} {d : Draft}
    (h : readExponent n bs = (d, none)) : d.Halted := by
  rcases readExponent_cases n bs with heq | ⟨b, more, negative, digits, -, -, -, -, heq⟩
  · rw [heq] at h
    exact absurd h numberReading_ne_none
  · rw [heq] at h
    unfold exponentReading at h
    split at h
    · exact halted_brokenNumber h
    · exact absurd h numberReading_ne_none

theorem halted_readFraction {n : Numeral} {bs : List UInt8} {d : Draft}
    (h : readFraction n bs = (d, none)) : d.Halted := by
  unfold readFraction at h
  split at h
  · exact absurd h numberReading_ne_none
  · split at h
    · dsimp only at h
      split at h
      · exact halted_brokenNumber h
      · exact halted_readExponent h
    · exact halted_readExponent h

theorem halted_readNumber {negative : Bool} {bs : List UInt8} {d : Draft}
    (h : readNumber negative bs = (d, none)) : d.Halted := by
  unfold readNumber at h
  dsimp only at h
  split at h
  · exact halted_brokenNumber h
  · split at h
    · cases h
      trivial
    · exact halted_readFraction h

theorem halted_readScalar {b : UInt8} {bs : List UInt8} {d : Draft}
    (h : readScalar b bs = (d, none)) : d.Halted := by
  unfold readScalar at h
  split at h
  · exact halted_readWord h
  split at h
  · exact halted_readWord h
  split at h
  · exact halted_readWord h
  split at h
  · exact halted_readNumber h
  split at h
  · exact halted_readNumber h
  · cases h
    trivial

mutual

theorem halted_readValue (fuel : Nat) {bs : List UInt8} {d : Draft}
    (h : readValue fuel bs = (d, none)) : d.Halted := by
  match fuel with
  | 0 =>
    cases h
    trivial
  | fuel + 1 =>
    unfold readValue at h
    split at h
    · cases h
      trivial
    split at h
    · exact halted_readMembers fuel h
    split at h
    · exact halted_readItems fuel h
    split at h
    · exact halted_readString h
    · exact halted_readScalar h

theorem halted_readItems (fuel : Nat) {acc : List Draft} {bs : List UInt8} {d : Draft}
    (h : readItems fuel acc bs = (d, none)) : d.Halted := by
  match fuel with
  | 0 =>
    cases h
    exact Or.inl (by simp)
  | fuel + 1 =>
    unfold readItems at h
    split at h
    · cases h
      exact Or.inl (by simp)
    split at h
    · cases h
    split at h
    · exact halted_readItem fuel h
    split at h
    · split at h
      · cases h
        exact Or.inl (by simp)
      split at h
      · cases h
        exact Or.inl (by simp)
      · exact halted_readItem fuel h
    · cases h
      exact Or.inl (by simp)

theorem halted_readItem (fuel : Nat) {acc : List Draft} {bs : List UInt8} {d : Draft}
    (h : readItem fuel acc bs = (d, none)) : d.Halted := by
  match fuel with
  | 0 =>
    cases h
    exact Or.inl (by simp)
  | fuel + 1 =>
    unfold readItem at h
    split at h
    · rename_i x hx
      obtain ⟨rfl, -⟩ := Prod.mk.inj h
      exact Or.inr ⟨x, by simp, (halted_readValue fuel hx).unread⟩
    · exact halted_readItems fuel h

theorem halted_readMembers (fuel : Nat) {acc : List (Key × Draft)} {bs : List UInt8} {d : Draft}
    (h : readMembers fuel acc bs = (d, none)) : d.Halted := by
  match fuel with
  | 0 =>
    cases h
    exact Or.inl (by simp)
  | fuel + 1 =>
    unfold readMembers at h
    split at h
    · cases h
      exact Or.inl (by simp)
    split at h
    · cases h
    split at h
    · exact halted_readMember fuel h
    split at h
    · split at h
      · cases h
        exact Or.inl (by simp)
      split at h
      · cases h
        exact Or.inl (by simp)
      · exact halted_readMember fuel h
    · cases h
      exact Or.inl (by simp)

theorem halted_readMember (fuel : Nat) {acc : List (Key × Draft)} {bs : List UInt8} {d : Draft}
    (h : readMember fuel acc bs = (d, none)) : d.Halted := by
  have hlast {k : Key} {x : Draft} {more : Option (List UInt8)} (hx : UnreadMember (k, x))
      (h : ((.object ((k, x) :: acc).reverse none, more) : Reading) = (d, none)) : d.Halted := by
    obtain ⟨rfl, -⟩ := Prod.mk.inj h
    exact Or.inr ⟨(k, x), by simp, hx⟩
  have hfault {f : Fault} : (Draft.fault f).Unread := Draft.Halted.unread trivial
  match fuel, bs with
  | 0, _ =>
    cases h
    exact Or.inl (by simp)
  | _ + 1, [] =>
    cases h
    exact Or.inl (by simp)
  | fuel + 1, b :: bs =>
    unfold readMember at h
    split at h
    · rcases hscan : scanString [] bs with ⟨pieces, stop⟩
      simp only [hscan] at h
      cases stop with
      | closed rest =>
        dsimp only at h
        split at h
        · exact hlast (Or.inr hfault) h
        split at h
        · split at h
          · rename_i x hx
            exact hlast (Or.inr (halted_readValue fuel hx).unread) h
          · exact halted_readMembers fuel h
        · exact hlast (Or.inr hfault) h
      | _ => exact hlast (Or.inr hfault) h
    · exact hlast (Or.inl fun s hs => by cases hs) h

end

theorem not_unread_of_bufferedItems {p : Place} {items : List Draft} {u : Unit}
    (h : Decoder.bufferedItems p items = .ok u) : ∀ d ∈ items, ¬ d.Unread := by
  induction items with
  | nil => simp
  | cons d items ih =>
    obtain ⟨u', hd, hrest⟩ := exists_of_bind_ok h
    obtain ⟨v, hv, -⟩ := exists_of_bind_ok hd
    intro x hx
    rcases List.mem_cons.mp hx with rfl | hx
    · exact fun hunread => hunread p v hv
    · exact ih hrest x hx

theorem not_unread_of_variantTag {variants : List String} {d : Draft} {name : String}
    (h : Decoder.variantTag variants d = .ok name) : ¬ d.Unread := by
  cases d with
  | string s => exact fun hunread => hunread .text (.string s) rfl
  | _ => cases h

theorem not_unread_of_tagOfMembers {variants : List String} {p : Place} {tag : Option String}
    {others members : List (Key × Draft)} {x : Option String × List (Key × Draft)}
    (h : Decoder.tagOfMembers variants p tag others members = .ok x) :
    ∀ m ∈ members, ¬ UnreadMember m := by
  induction members generalizing tag others with
  | nil => simp
  | cons m members ih =>
    obtain ⟨k, d⟩ := m
    obtain ⟨s, hs, h⟩ := exists_of_bind_ok h
    have hrest : ¬ d.Unread ∧ ∀ m ∈ members, ¬ UnreadMember m := by
      split at h
      · split at h
        · cases h
        · obtain ⟨name, hname, h⟩ := exists_of_bind_ok h
          exact ⟨not_unread_of_variantTag hname, ih h⟩
      · obtain ⟨u, hd, h⟩ := exists_of_bind_ok h
        obtain ⟨v, hv, -⟩ := exists_of_bind_ok hd
        exact ⟨fun hunread => hunread p v hv, ih h⟩
    intro m hm
    rcases List.mem_cons.mp hm with rfl | hm
    · rintro (hkey | hunread)
      · exact hkey s hs
      · exact hrest.1 hunread
    · exact hrest.2 m hm

/-- A variant with a tag is got only out of a list that was read to its end. -/
theorem not_halted_of_tagged {α : Type} {typeName : String} {variants : List String}
    {content : String → Draft → Except DecodeError α} {p : Place} {d : Draft} {a : α}
    (h : Decoder.tagged typeName variants content p d = .ok a) : ¬ d.Leaf ∧ ¬ d.Halted := by
  unfold Decoder.tagged at h
  split at h
  · obtain ⟨q, -, h⟩ := exists_of_bind_ok h
    obtain ⟨x, hx, h⟩ := exists_of_bind_ok h
    obtain ⟨u, hstop, -⟩ := exists_of_bind_ok h
    refine ⟨id, ?_⟩
    rintro (hne | ⟨m, hm, hunread⟩)
    · exact hne (stop_of_checkStop hstop)
    · exact not_unread_of_tagOfMembers hx m hm hunread
  · obtain ⟨q, -, h⟩ := exists_of_bind_ok h
    refine ⟨id, ?_⟩
    split at h
    · obtain ⟨u, -, h⟩ := exists_of_bind_ok h
      cases h
    · obtain ⟨name, hname, h⟩ := exists_of_bind_ok h
      obtain ⟨u, hitems, h⟩ := exists_of_bind_ok h
      obtain ⟨u', hstop, -⟩ := exists_of_bind_ok h
      rintro (hne | ⟨x, hx, hunread⟩)
      · exact hne (stop_of_checkStop hstop)
      · rcases List.mem_cons.mp hx with rfl | hx
        · exact not_unread_of_variantTag hname hunread
        · exact not_unread_of_bufferedItems hitems x hx hunread
  · cases h

end EchoServer.Json
