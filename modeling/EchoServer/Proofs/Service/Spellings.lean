import EchoServer.Proofs.Json.Numbers
import EchoServer.Proofs.Service.Tokens

namespace EchoServer

namespace Text

theorem toNat_of_isDigit {c : Char} (h : c.isDigit = true) :
    '0'.toNat ≤ c.toNat ∧ c.toNat < '0'.toNat + 10 := by
  obtain ⟨hzero, hnine⟩ := (isDigit_iff c).mp h
  exact ⟨UInt32.le_iff_toNat_le.mp hzero, Nat.lt_succ_of_le (UInt32.le_iff_toNat_le.mp hnine)⟩

theorem toDigits_of_isDigit {c : Char} (h : c.isDigit = true) :
    Nat.toDigits 10 (c.toNat - '0'.toNat) = [c] := by
  have hback : ∀ n < 10, n.digitChar.toNat = n + '0'.toNat := by decide
  have hbounds := toNat_of_isDigit h
  have hten : c.toNat - '0'.toNat < 10 := by omega
  have hchar : (c.toNat - '0'.toNat).digitChar.toNat = c.toNat := by
    rw [hback _ hten]
    omega
  rw [Nat.toDigits_of_lt_base hten]
  exact congrArg (fun d => [d]) (Char.ext (UInt32.toNat_inj.mp hchar))

/-- Digits behind the decimal text of a number make a decimal text, unless that number is zero. -/
theorem toDigits_append {n : Nat} (hn : 0 < n) {digits : List Char}
    (h : digits.all Char.isDigit = true) :
    Nat.toDigits 10 n ++ digits = Nat.toDigits 10 (Nat.ofDigitChars 10 digits n) := by
  induction digits generalizing n with
  | nil => rw [List.append_nil, Nat.ofDigitChars_nil]
  | cons c cs ih =>
    rw [List.all_cons, Bool.and_eq_true] at h
    obtain ⟨hc, hcs⟩ := h
    have hten : c.toNat - '0'.toNat < 10 := by
      have hbounds := toNat_of_isDigit hc
      omega
    calc
      Nat.toDigits 10 n ++ c :: cs = Nat.toDigits 10 n ++ [c] ++ cs := by
        rw [List.append_assoc, List.singleton_append]
      _ = Nat.toDigits 10 (10 * n + (c.toNat - '0'.toNat)) ++ cs := by
        rw [← toDigits_of_isDigit hc, Nat.toDigits_append_toDigits (by decide) hn hten]
      _ = Nat.toDigits 10 (Nat.ofDigitChars 10 (c :: cs) n) := by
        rw [ih (by omega) hcs, Nat.ofDigitChars_cons]

/-- Digits are zeros and the decimal text of their number. -/
theorem exists_leading_zeros {digits : List Char} (hne : digits ≠ [])
    (h : digits.all Char.isDigit = true) :
    ∃ k, digits = List.replicate k '0' ++ Nat.toDigits 10 (Nat.ofDigitChars 10 digits 0) := by
  induction digits with
  | nil => exact absurd rfl hne
  | cons c cs ih =>
    rw [List.all_cons, Bool.and_eq_true] at h
    obtain ⟨hc, hcs⟩ := h
    rw [Nat.ofDigitChars_cons, Nat.mul_zero, Nat.zero_add]
    by_cases hzero : c = '0'
    · rw [hzero]
      by_cases hlast : cs = []
      · -- a zero with nothing behind it is the decimal text of zero
        rw [hlast]
        exact ⟨0, rfl⟩
      · obtain ⟨k, hk⟩ := ih hlast hcs
        refine ⟨k + 1, ?_⟩
        rw [List.replicate_succ, List.cons_append, Nat.sub_self, ← hk]
    · have hpos : 0 < c.toNat - '0'.toNat := by
        have hbounds := toNat_of_isDigit hc
        have hother : c.toNat ≠ '0'.toNat := fun heq => hzero (Char.ext (UInt32.toNat_inj.mp heq))
        omega
      refine ⟨0, ?_⟩
      rw [← toDigits_append hpos hcs, toDigits_of_isDigit hc]
      rfl

end Text

namespace Page

/-- The decimal text of an index behind that many zeros, and behind a plus sign or none. -/
def spelling (signed : Bool) (zeros index : Nat) : String :=
  (if signed then "+" else "") ++ String.ofList (List.replicate zeros '0') ++ tokenOf index

/-- The token has no sign, and no zero in front of other digits. -/
def Bare (token : String) : Prop :=
  token.toList.head? ≠ some '+' ∧ (token.toList.head? = some '0' → token = "0")

instance (token : String) : Decidable (Bare token) := inferInstanceAs (Decidable (_ ∧ _))

theorem toList_spelling (signed : Bool) (zeros index : Nat) :
    (spelling signed zeros index).toList =
      (if signed then ['+'] else []) ++ (List.replicate zeros '0' ++ Nat.toDigits 10 index) := by
  have hsign : (if signed then "+" else "").toList = if signed then ['+'] else [] := by
    cases signed <;> rfl
  rw [spelling, tokenOf, String.toList_append, String.toList_append, String.toList_ofList,
    String.toList_ofList, hsign, List.append_assoc]

theorem spells_iff_spelling (token : String) (index : Nat) :
    Text.Spells token index ↔ ∃ signed zeros, token = spelling signed zeros index := by
  rw [Text.spells_iff]
  constructor
  · intro h
    obtain ⟨digits, hdigits, hne, hall, hindex⟩ := h
    obtain ⟨k, hk⟩ := Text.exists_leading_zeros hne hall
    rw [hindex] at hk
    rcases hdigits with hdigits | hdigits
    · refine ⟨false, k, String.toList_inj.mp ?_⟩
      rw [toList_spelling, hdigits, hk]
      rfl
    · refine ⟨true, k, String.toList_inj.mp ?_⟩
      rw [toList_spelling, hdigits, hk]
      rfl
  · intro h
    obtain ⟨signed, k, rfl⟩ := h
    refine ⟨List.replicate k '0' ++ Nat.toDigits 10 index, ?_, ?_, ?_, ?_⟩
    · rw [toList_spelling]
      cases signed with
      | false => exact Or.inl rfl
      | true => exact Or.inr rfl
    · intro hnil
      exact Nat.toDigits_ne_nil (List.append_eq_nil_iff.mp hnil).2
    · rw [List.all_append, Bool.and_eq_true]
      constructor
      · exact List.all_eq_true.mpr fun c hc => by rw [List.eq_of_mem_replicate hc]; rfl
      · exact List.all_eq_true.mpr fun c hc =>
          Nat.isDigit_of_mem_toDigits (by decide) (by decide) hc
    · rw [Nat.ofDigitChars_append, Nat.ofDigitChars_replicate_zero, Nat.mul_zero,
        Nat.ofDigitChars_ten_toDigits]

theorem toList_tokenOf (index : Nat) : (tokenOf index).toList = Nat.toDigits 10 index := by
  rw [tokenOf, String.toList_ofList]

/-- The decimal text of an index is bare. -/
theorem bare_tokenOf (index : Nat) : Bare (tokenOf index) := by
  rw [Bare, toList_tokenOf]
  constructor
  · intro hsign
    have hdigit : ('+' : Char).isDigit = true :=
      Nat.isDigit_of_mem_toDigits (by decide) (by decide) (List.mem_of_head? hsign)
    exact absurd hdigit (by decide)
  · intro hzero
    -- only the text of zero begins with a zero
    have hindex : index = 0 := by
      apply Nat.eq_zero_of_not_pos
      intro hpos
      exact Json.head_toDigits_ne_zero index hpos '0' hzero rfl
    rw [hindex]
    rfl

/-- Of the spellings of an index, only the decimal text is bare. -/
theorem bare_spelling_iff (signed : Bool) (zeros index : Nat) :
    Bare (spelling signed zeros index) ↔ spelling signed zeros index = tokenOf index := by
  constructor
  · intro h
    obtain ⟨hsign, hzero⟩ := h
    rw [toList_spelling] at hsign hzero
    cases signed with
    | true => exact absurd rfl hsign
    | false =>
      cases zeros with
      | zero =>
        apply String.toList_inj.mp
        rw [toList_spelling, toList_tokenOf]
        rfl
      | succ zeros =>
        -- a needless zero stands in front of at least one digit, and "0" has none behind it
        have hshort := congrArg (fun token => token.toList.length) (hzero rfl)
        have hdigits := List.length_pos_iff.mpr (Nat.toDigits_ne_nil : Nat.toDigits 10 index ≠ [])
        simp only [toList_spelling, Bool.false_eq_true, if_false, List.nil_append,
          List.length_append, List.length_replicate] at hshort
        have hone : "0".toList.length = 1 := rfl
        omega
  · intro h
    rw [h]
    exact bare_tokenOf index

variable {total : Nat} {size : Int} {token : String}

/-- The page that a token selects begins at the index the token spells. -/
theorem spells_start_of_select {p : Page} (hne : token ≠ "")
    (h : select total size token = .ok p) : Text.Spells token p.start ∧ p.start < total := by
  obtain ⟨-, start, hnames, rfl⟩ := (select_eq_ok_iff total size token p).mp h
  rcases hnames with ⟨hempty, -⟩ | hspells
  · exact absurd hempty hne
  · exact hspells

/-- The tokens of a page are the spellings of the index where it begins. -/
theorem exists_select_start_iff (hne : token ≠ "") (hsize : 0 ≤ size) (index : Nat) :
    (∃ p, select total size token = .ok p ∧ p.start = index) ↔
      index < total ∧ ∃ signed zeros, token = spelling signed zeros index := by
  rw [← spells_iff_spelling]
  constructor
  · intro h
    obtain ⟨p, hp, rfl⟩ := h
    exact (spells_start_of_select hne hp).symm
  · intro h
    obtain ⟨hlt, hspells⟩ := h
    exact ⟨_, (select_eq_ok_iff total size token _).mpr
      ⟨hsize, index, Or.inr ⟨hspells, hlt⟩, rfl⟩, rfl⟩

/-- The token of a page is the decimal text of the page's beginning exactly if it is bare. -/
theorem eq_tokenOf_start_iff {p : Page} (hne : token ≠ "")
    (h : select total size token = .ok p) : token = tokenOf p.start ↔ Bare token := by
  obtain ⟨signed, zeros, htoken⟩ :=
    (spells_iff_spelling token p.start).mp (spells_start_of_select hne h).1
  rw [htoken]
  exact (bare_spelling_iff signed zeros p.start).symm

/-- A token that is not empty selects a page exactly if it is the decimal text of an index, behind
any number of zeros, and behind a plus sign or none. Pages give out the decimal text. -/
theorem tokens_are_spellings (total : UInt64) :
    (∀ (size : Int32) (token : String) (index : Nat), 0 ≤ size.toInt → token ≠ "" →
      ((∃ p, select total.toNat size.toInt token = .ok p ∧ p.start = index) ↔
        index < total.toNat ∧ ∃ signed zeros, token = spelling signed zeros index)) ∧
    (∀ (size : Int32) (token : String) (p : Page), token ≠ "" →
      select total.toNat size.toInt token = .ok p →
      (token = tokenOf p.start ↔ Bare token) ∧
      (p.nextToken ≠ "" → p.nextToken = tokenOf p.stop ∧ Bare p.nextToken) ∧
      (∀ (size' : Int32) (token' : String) (p' : Page), token' ≠ "" → Bare token → Bare token' →
        select total.toNat size'.toInt token' = .ok p' → p'.start = p.start → token' = token)) := by
  refine ⟨fun size token index hsize hne => exists_select_start_iff hne hsize index, ?_⟩
  intro size token p hne hp
  have htoken := eq_tokenOf_start_iff hne hp
  refine ⟨htoken, ?_, ?_⟩
  · intro hnext
    obtain ⟨-, start, -, rfl⟩ := (select_eq_ok_iff _ _ token p).mp hp
    have hissued : (ofStart total.toNat size.toInt.toNat start).nextToken =
        tokenOf (ofStart total.toNat size.toInt.toNat start).stop :=
      if_pos (startOf_nextToken hnext).1
    rw [hissued]
    exact ⟨rfl, bare_tokenOf _⟩
  · intro size' token' p' hne' hbare hbare' hp' hstart
    rw [(eq_tokenOf_start_iff hne' hp').mpr hbare', htoken.mpr hbare, hstart]

/-- Two of five words from the second one on: the token with a sign and zeros is taken, is not bare
and not the text of the index, and the page gives out a bare token. -/
theorem tokens_are_spellings_of_one :
    (∃ p, select 5 2 "+001" = .ok p ∧ p.start = 1 ∧ "+001" ≠ tokenOf p.start) ∧
    Bare (tokenOf 3) := by
  obtain ⟨hselects, hpages⟩ := tokens_are_spellings 5
  obtain ⟨p, hp, hstart⟩ :=
    (hselects 2 "+001" 1 (by decide) (by decide)).mpr ⟨by decide, true, 2, by decide +kernel⟩
  obtain ⟨htoken, -, -⟩ := hpages 2 "+001" p (by decide) hp
  have hissued : select (5 : UInt64).toNat (2 : Int32).toInt "1" = .ok ⟨1, 3, "3"⟩ := rfl
  obtain ⟨-, hbare, -⟩ := hpages 2 "1" _ (by decide) hissued
  refine ⟨⟨p, hp, hstart, fun heq => ?_⟩, (hbare (by decide)).2⟩
  exact absurd (htoken.mp heq) (by decide)

/-- A sign is read over: of two tokens for one page, one is not the text of its beginning. -/
theorem signed_token_selects_same_page :
    select 5 2 "+1" = .ok ⟨1, 3, "3"⟩ ∧ select 5 2 "1" = .ok ⟨1, 3, "3"⟩ ∧ tokenOf 1 ≠ "+1" :=
  ⟨rfl, rfl, by decide +kernel⟩

end Page
end EchoServer
