import EchoServer.Proofs.Json.Halted

/-! Text is torn if it breaks off behind a digit, or other text begins there. There is no list
around the place, and no string either, so what is read of it is at most a number. -/
namespace EchoServer.Json

/-- Text that does not go on with what stands before it: there is none, or a line ends, and nothing
or an object comes then. -/
def Apart (t : List UInt8) : Prop :=
  t = [] ∨ ∃ u, t = 0x0D :: u ∧ (dropSpace u = [] ∨ ∃ w, dropSpace u = 0x7B :: w)

/-- The text `bs` ends in a digit and then `t`. -/
def Torn (t bs : List UInt8) : Prop := ∃ front b, bs = front ++ b :: t ∧ isDigit b = true

/-- The text `bs` is `t`, or ends in a digit and then `t`. -/
def Near (t bs : List UInt8) : Prop := bs = t ∨ Torn t bs

section
variable {t bs : List UInt8}

theorem not_digit_of_space {b : UInt8} (h : isSpace b = true) : isDigit b = false := by
  simp only [isSpace, Bool.or_eq_true, beq_iff_eq] at h
  rcases h with ((rfl | rfl) | rfl) | rfl <;> rfl

theorem Torn.cons {b : UInt8} (h : Torn t (b :: bs)) : isDigit b = true ∧ bs = t ∨ Torn t bs := by
  obtain ⟨front, c, heq, hc⟩ := h
  cases front with
  | nil =>
    obtain ⟨rfl, rfl⟩ := List.cons.inj heq
    exact Or.inl ⟨hc, rfl⟩
  | cons a front =>
    obtain ⟨-, rfl⟩ := List.cons.inj heq
    exact Or.inr ⟨front, c, rfl, hc⟩

theorem Torn.near {b : UInt8} (h : Torn t (b :: bs)) : Near t bs := h.cons.imp And.right id

theorem Torn.tail {b : UInt8} (h : Torn t (b :: bs)) (hb : isDigit b = false) : Torn t bs := by
  rcases h.cons with ⟨hdigit, -⟩ | h
  · rw [hb] at hdigit
    cases hdigit
  · exact h

theorem not_torn_nil : ¬ Torn t [] := by
  rintro ⟨front, b, heq, -⟩
  simp at heq

/-- What comes behind the space is torn as well. -/
theorem Torn.dropSpace (h : Torn t bs) :
    ∃ b more, dropSpace bs = b :: more ∧ Torn t (b :: more) := by
  induction bs with
  | nil => exact absurd h not_torn_nil
  | cons b bs ih =>
    by_cases hb : isSpace b = true
    · obtain ⟨c, more, hd, hmore⟩ := ih (h.tail (not_digit_of_space hb))
      refine ⟨c, more, ?_, hmore⟩
      rw [← hd]
      simp [Json.dropSpace, hb]
    · exact ⟨b, bs, by simp [Json.dropSpace, hb], h⟩

/-- A byte other than the end of a line is not the first one of what is apart. -/
theorem Apart.torn {b : UInt8} (ht : Apart t) (h : Near t (b :: bs)) (hb : b ≠ 0x0D) :
    Torn t (b :: bs) := by
  rcases h with rfl | h
  · rcases ht with hnil | ⟨u, hcons, -⟩
    · cases hnil
    · exact absurd (List.cons.inj hcons).1 hb
  · exact h

/-- A byte that is neither a digit nor the end of a line is followed by torn text. -/
theorem Apart.tail {b : UInt8} (ht : Apart t) (h : Near t (b :: bs)) (hb : isDigit b = false)
    (hcr : b ≠ 0x0D) : Torn t bs := (ht.torn h hcr).tail hb

theorem Apart.dropSpace (ht : Apart t) : dropSpace t = [] ∨ ∃ w, dropSpace t = 0x7B :: w := by
  rcases ht with rfl | ⟨u, rfl, hu⟩
  · exact Or.inl rfl
  · exact hu

theorem torn_readWord {d d' : Draft} {cs : List Char} {rest : List UInt8}
    (hcs : ∀ c ∈ cs, c.isDigit = false) (h : Torn t bs)
    (hread : readWord d cs bs = (d', some rest)) : Torn t rest ∧ d' = d := by
  induction cs generalizing bs with
  | nil =>
    obtain ⟨rfl, hrest⟩ := Prod.mk.inj hread
    obtain rfl := Option.some.inj hrest
    exact ⟨h, rfl⟩
  | cons c cs ih =>
    cases bs with
    | nil => exact absurd h not_torn_nil
    | cons b bs =>
      unfold readWord at hread
      split at hread
      · rename_i hb
        refine ih (fun x hx => hcs x (by simp [hx])) (h.tail ?_) hread
        have hc := hcs c (by simp)
        simp only [isDigit, Char.isDigit, Bool.and_eq_false_iff, decide_eq_false_iff_not,
          UInt8.le_iff_toNat_le, ge_iff_le, UInt32.le_iff_toNat_le] at hc ⊢
        rw [hb]
        exact hc
      · cases hread

theorem near_spanDigits (ht : Apart t) (h : Near t bs) : Near t (spanDigits bs).2 := by
  show Near t (bs.dropWhile isDigit)
  induction bs with
  | nil => exact h
  | cons b bs ih =>
    by_cases hb : isDigit b = true
    · have hcr : b ≠ 0x0D := by
        rintro rfl
        cases hb
      rw [List.dropWhile_cons_of_pos hb]
      exact ih (ht.torn h hcr).near
    · rw [List.dropWhile_cons_of_neg hb]
      exact h

theorem numberReading_some {n : Numeral} {d : Draft} {rest : List UInt8}
    (h : numberReading n bs = (d, some rest)) : rest = bs ∧ d.Leaf := by
  unfold numberReading at h
  split at h
  all_goals
    obtain ⟨rfl, hrest⟩ := Prod.mk.inj h
    exact ⟨(Option.some.inj hrest).symm, trivial⟩

theorem brokenNumber_ne_some {d : Draft} {rest : List UInt8} :
    brokenNumber bs ≠ (d, some rest) := by
  intro h
  cases h

theorem near_readExponent (ht : Apart t) {n : Numeral} {d : Draft} {rest : List UInt8}
    (h : Near t bs) (hread : readExponent n bs = (d, some rest)) : Near t rest ∧ d.Leaf := by
  rcases readExponent_cases n bs with
    heq | ⟨b, more, negative, digits, rfl, hb, hcr, hdigits, heq⟩
  · rw [heq] at hread
    obtain ⟨rfl, hd⟩ := numberReading_some hread
    exact ⟨h, hd⟩
  · have hmore : Torn t more := ht.tail h hb hcr
    have hnear : Near t digits := by
      rcases hdigits with rfl | ⟨c, rfl⟩
      · exact Or.inr hmore
      · exact hmore.near
    have hspan := near_spanDigits ht hnear
    rw [heq] at hread
    unfold exponentReading at hread
    split at hread
    · exact absurd hread brokenNumber_ne_some
    · obtain ⟨rfl, hd⟩ := numberReading_some hread
      exact ⟨hspan, hd⟩

theorem near_readFraction (ht : Apart t) {n : Numeral} {d : Draft} {rest : List UInt8}
    (h : Near t bs) (hread : readFraction n bs = (d, some rest)) : Near t rest ∧ d.Leaf := by
  unfold readFraction at hread
  split at hread
  · obtain ⟨rfl, hd⟩ := numberReading_some hread
    exact ⟨h, hd⟩
  · rename_i b more
    split at hread
    · rename_i hb
      subst hb
      have hspan := near_spanDigits ht (Or.inr (ht.tail h rfl (by decide)))
      dsimp only at hread
      split at hread
      · exact absurd hread brokenNumber_ne_some
      · exact near_readExponent ht hspan hread
    · exact near_readExponent ht h hread

theorem near_readNumber (ht : Apart t) {negative : Bool} {d : Draft} {rest : List UInt8}
    (h : Near t bs) (hread : readNumber negative bs = (d, some rest)) : Near t rest ∧ d.Leaf := by
  have hspan := near_spanDigits ht h
  unfold readNumber at hread
  dsimp only at hread
  split at hread
  · exact absurd hread brokenNumber_ne_some
  · split at hread
    · cases hread
    · exact near_readFraction ht hspan hread

theorem near_readScalar (ht : Apart t) {b : UInt8} {d : Draft} {rest : List UInt8}
    (h : Torn t (b :: bs)) (hread : readScalar b bs = (d, some rest)) : Near t rest ∧ d.Leaf := by
  have hword (x : Draft) {cs : List Char} (hx : x.Leaf) (hcs : ∀ c ∈ cs, c.isDigit = false)
      (hb : isDigit b = false) (hread : readWord x cs bs = (d, some rest)) :
      Near t rest ∧ d.Leaf := by
    obtain ⟨hrest, rfl⟩ := torn_readWord hcs (h.tail hb) hread
    exact ⟨Or.inr hrest, hx⟩
  unfold readScalar at hread
  split at hread
  · rename_i hb
    exact hword .null trivial (by simp) (hb ▸ rfl) hread
  split at hread
  · rename_i hb
    exact hword (.bool true) trivial (by simp) (hb ▸ rfl) hread
  split at hread
  · rename_i hb
    exact hword (.bool false) trivial (by simp) (hb ▸ rfl) hread
  split at hread
  · exact near_readNumber ht h.near hread
  split at hread
  · exact near_readNumber ht (Or.inr h) hread
  · cases hread

theorem near_hexDigits (ht : Apart t) {a b c d : UInt8} {n : Nat}
    (hvalue : hexValue4 a b c d = some n) (h : Torn t (a :: b :: c :: d :: bs)) : Near t bs := by
  have hnewline : hexValue 0x0D = none := by decide
  unfold hexValue4 at hvalue
  simp only [Option.bind_eq_bind, Option.bind_eq_some_iff] at hvalue
  obtain ⟨-, -, x, hx, y, hy, z, hz, -⟩ := hvalue
  have hne {e : UInt8} {v : Nat} (he : hexValue e = some v) : e ≠ 0x0D := by
    rintro rfl
    rw [hnewline] at he
    cases he
  have hb := ht.torn h.near (hne hx)
  have hc := ht.torn hb.near (hne hy)
  exact (ht.torn hc.near (hne hz)).near

/-- A string that is closed is closed before the digit. -/
theorem torn_scanString (ht : Apart t) {acc pieces : List Piece} {rest : List UInt8}
    (h : Near t bs) (hscan : scanString acc bs = (pieces, .closed rest)) : Torn t rest := by
  fun_induction scanString acc bs with
  | case2 acc bs =>
    obtain ⟨-, hrest⟩ := Prod.mk.inj hscan
    obtain rfl := StringEnd.closed.inj hrest
    exact ht.tail h rfl (by decide)
  | case4 acc a b c d bs n hvalue hq ih =>
    have hescape : Torn t (0x75 :: a :: b :: c :: d :: bs) := ht.tail h rfl (by decide)
    exact ih (near_hexDigits ht hvalue (hescape.tail rfl)) hscan
  | case7 acc e bs hu c hc hq ih =>
    have hescape : Torn t (e :: bs) := ht.tail h rfl (by decide)
    exact ih hescape.near hscan
  | case10 acc b bs hq hs hcontrol ih =>
    have hcr : b ≠ 0x0D := by
      rintro rfl
      exact hcontrol (by decide)
    exact ih (ht.torn h hcr).near hscan
  | case1 => cases hscan
  | case3 => cases hscan
  | case5 => cases hscan
  | case6 => cases hscan
  | case8 => cases hscan
  | case9 => cases hscan

theorem torn_readString (ht : Apart t) {d : Draft} {rest : List UInt8} (h : Near t bs)
    (hread : readString bs = (d, some rest)) : Torn t rest := by
  unfold readString at hread
  rcases hscan : scanString [] bs with ⟨pieces, stop⟩
  have hclosed : stop = .closed rest := by
    simp only [hscan] at hread
    cases stop with
    | closed rest' => split at hread <;> simp_all
    | _ => split at hread <;> cases hread
  rw [hclosed] at hscan
  exact torn_scanString ht h hscan

mutual

/-- A value that is read before the place is a number that ends there, or it ends before. -/
theorem torn_readValue (ht : Apart t) (fuel : Nat) {bs rest : List UInt8} {d : Draft}
    (h : Torn t bs) (hread : readValue fuel bs = (d, some rest)) :
    Torn t rest ∨ rest = t ∧ d.Leaf := by
  -- the recursion is on the fuel, as that of the readers
  match fuel with
  | 0 => cases hread
  | fuel + 1 =>
    obtain ⟨b, more, hd, hmore⟩ := h.dropSpace
    simp only [readValue, hd] at hread
    split at hread
    · rename_i hb
      subst hb
      exact Or.inl (torn_readMembers ht fuel (Or.inl (hmore.tail rfl)) hread)
    split at hread
    · rename_i hb
      subst hb
      exact Or.inl (torn_readItems ht fuel (Or.inl (hmore.tail rfl)) hread)
    split at hread
    · exact Or.inl (torn_readString ht hmore.near hread)
    · obtain ⟨hrest, hleaf⟩ := near_readScalar ht hmore hread
      exact hrest.symm.imp_right fun hrest => ⟨hrest, hleaf⟩

theorem torn_readItems (ht : Apart t) (fuel : Nat) {acc : List Draft} {bs rest : List UInt8}
    {d : Draft} (h : Torn t bs ∨ bs = t ∧ acc ≠ [])
    (hread : readItems fuel acc bs = (d, some rest)) : Torn t rest := by
  match fuel with
  | 0 => cases hread
  | fuel + 1 =>
    rcases h with h | ⟨rfl, hacc⟩
    · obtain ⟨b, more, hd, hmore⟩ := h.dropSpace
      simp only [readItems, hd] at hread
      split at hread
      · rename_i hb
        subst hb
        obtain ⟨-, hrest⟩ := Prod.mk.inj hread
        obtain rfl := Option.some.inj hrest
        exact hmore.tail rfl
      split at hread
      · exact torn_readItem ht fuel hmore hread
      split at hread
      · rename_i hb
        subst hb
        obtain ⟨c, more', hd', hmore'⟩ := (hmore.tail rfl).dropSpace
        simp only [hd'] at hread
        split at hread
        · cases hread
        · exact torn_readItem ht fuel hmore' hread
      · cases hread
    -- behind an item, neither its end nor an object goes on with the list
    · rcases ht.dropSpace with hd | ⟨w, hd⟩ <;> simp [readItems, hd, hacc] at hread

theorem torn_readItem (ht : Apart t) (fuel : Nat) {acc : List Draft} {bs rest : List UInt8}
    {d : Draft} (h : Torn t bs) (hread : readItem fuel acc bs = (d, some rest)) :
    Torn t rest := by
  match fuel with
  | 0 => cases hread
  | fuel + 1 =>
    unfold readItem at hread
    split at hread
    · cases hread
    · rename_i x more hx
      have hmore : Torn t more ∨ more = t ∧ x :: acc ≠ [] :=
        (torn_readValue ht fuel h hx).imp id fun hmore => ⟨hmore.1, by simp⟩
      exact torn_readItems ht fuel hmore hread

theorem torn_readMembers (ht : Apart t) (fuel : Nat) {acc : List (Key × Draft)}
    {bs rest : List UInt8} {d : Draft} (h : Torn t bs ∨ bs = t ∧ acc ≠ [])
    (hread : readMembers fuel acc bs = (d, some rest)) : Torn t rest := by
  match fuel with
  | 0 => cases hread
  | fuel + 1 =>
    rcases h with h | ⟨rfl, hacc⟩
    · obtain ⟨b, more, hd, hmore⟩ := h.dropSpace
      simp only [readMembers, hd] at hread
      split at hread
      · rename_i hb
        subst hb
        obtain ⟨-, hrest⟩ := Prod.mk.inj hread
        obtain rfl := Option.some.inj hrest
        exact hmore.tail rfl
      split at hread
      · exact torn_readMember ht fuel hmore hread
      split at hread
      · rename_i hb
        subst hb
        obtain ⟨c, more', hd', hmore'⟩ := (hmore.tail rfl).dropSpace
        simp only [hd'] at hread
        split at hread
        · cases hread
        · exact torn_readMember ht fuel hmore' hread
      · cases hread
    · rcases ht.dropSpace with hd | ⟨w, hd⟩ <;> simp [readMembers, hd, hacc] at hread

theorem torn_readMember (ht : Apart t) (fuel : Nat) {acc : List (Key × Draft)}
    {bs rest : List UInt8} {d : Draft} (h : Torn t bs)
    (hread : readMember fuel acc bs = (d, some rest)) : Torn t rest := by
  match fuel, bs with
  | 0, _ => cases hread
  | _ + 1, [] => exact absurd h not_torn_nil
  | fuel + 1, b :: bs =>
    unfold readMember at hread
    split at hread
    · rename_i hb
      rcases hscan : scanString [] bs with ⟨pieces, stop⟩
      simp only [hscan] at hread
      cases stop with
      | closed behind =>
        have hbehind := torn_scanString ht h.near hscan
        obtain ⟨c, more, hd, hmore⟩ := hbehind.dropSpace
        simp only [hd] at hread
        split at hread
        · rename_i hc
          subst hc
          split at hread
          · cases hread
          · rename_i x more' hx
            refine torn_readMembers ht fuel ?_ hread
            exact (torn_readValue ht fuel (hmore.tail rfl) hx).imp id fun hmore =>
              ⟨hmore.1, by simp⟩
        · cases hread
      | _ => cases hread
    · cases hread

end

end

/-- No variant with a tag is got out of a text that is torn. -/
theorem ofText_torn {α : Type} {typeName : String} {variants : List String}
    {content : String → Draft → Except DecodeError α} {t bs : List UInt8} {a : α} (ht : Apart t)
    (h : Torn t bs) : Decoder.ofText (Decoder.tagged typeName variants content) bs ≠ .ok a := by
  intro hok
  obtain ⟨b, hb, hend⟩ := exists_of_bind_ok hok
  obtain ⟨hleaf, hhalted⟩ := not_halted_of_tagged hb
  rcases hread : readValue (3 * bs.length + 3) bs with ⟨d, _ | rest⟩
  · rw [readDocument, hread] at hhalted
    exact hhalted (halted_readValue _ hread)
  · rcases torn_readValue ht _ h hread with hrest | ⟨-, hd⟩
    · obtain ⟨c, more, hdrop, -⟩ := hrest.dropSpace
      rw [readDocument, hread] at hend
      simp [hdrop] at hend
    · rw [readDocument, hread] at hleaf
      exact hleaf hd

end EchoServer.Json
