import EchoServer.Proofs.Service.Paging
import EchoServer.Proofs.Text.Count

namespace EchoServer.Page

/-- The token stands for this index among `total` words. -/
def Names (total : Nat) (token : String) (index : Nat) : Prop :=
  token = "" ∧ index = 0 ∨ Text.Spells token index ∧ index < total

/-- The empty token spells nothing. -/
theorem ne_empty_of_spells {token : String} {n : Nat} (h : Text.Spells token n) : token ≠ "" := by
  intro hempty
  rw [hempty] at h
  obtain ⟨digits, hdigits | hdigits, hne, -⟩ := h
  · exact hne hdigits.symm
  · cases hdigits

theorem exists_names_iff (total : Nat) (token : String) :
    (∃ index, Names total token index) ↔
      token = "" ∨ ∃ n, Text.Spells token n ∧ n < total := by
  constructor
  · intro h
    obtain ⟨index, ⟨hempty, -⟩ | hspells⟩ := h
    · exact Or.inl hempty
    · exact Or.inr ⟨index, hspells⟩
  · intro h
    rcases h with hempty | ⟨n, hspells⟩
    · exact ⟨0, Or.inl ⟨hempty, rfl⟩⟩
    · exact ⟨n, Or.inr hspells⟩

/-- Only the empty token stands for an index that no word has, and only if there are no words. -/
theorem Names.lt {total index : Nat} {token : String} (h : Names total token index)
    (htotal : total ≠ 0) : index < total := by
  rcases h with ⟨-, hindex⟩ | ⟨-, hlt⟩
  · omega
  · exact hlt

theorem Names.le {total index : Nat} {token : String} (h : Names total token index) :
    index ≤ total := by
  rcases h with ⟨-, hindex⟩ | ⟨-, hlt⟩
  · omega
  · exact Nat.le_of_lt hlt

theorem startOf_eq_ok_iff (total : Nat) (token : String) (index : Nat) :
    startOf total token = .ok index ↔ Names total token index := by
  rw [startOf, Names]
  by_cases hempty : token = ""
  · rw [if_pos (String.isEmpty_iff.mpr hempty)]
    constructor
    · intro h
      exact Or.inl ⟨hempty, (Except.ok.inj h).symm⟩
    · intro h
      rcases h with ⟨-, hindex⟩ | ⟨hspells, -⟩
      · rw [hindex]
      · exact absurd hempty (ne_empty_of_spells hspells)
  · rw [if_neg fun h => hempty (String.isEmpty_iff.mp h)]
    constructor
    · intro h
      split at h
      · rename_i n hn
        split at h
        · rename_i hlt
          obtain rfl := Except.ok.inj h
          exact Or.inr ⟨(Text.countOf?_eq_some_iff token n).mp hn, hlt⟩
        · cases h
      · cases h
    · intro h
      rcases h with ⟨h, -⟩ | ⟨hspells, hlt⟩
      · exact absurd h hempty
      · rw [(Text.countOf?_eq_some_iff token index).mpr hspells]
        exact if_pos hlt

theorem startOf_eq_error {total : Nat} {token : String} (h : ∀ index, ¬ Names total token index) :
    startOf total token = .error (badToken token total) := by
  cases hstart : startOf total token with
  | ok index => exact absurd ((startOf_eq_ok_iff total token index).mp hstart) (h index)
  | error s =>
    unfold startOf at hstart
    split at hstart
    · cases hstart
    · split at hstart
      · split at hstart
        · cases hstart
        · exact hstart.symm
      · exact hstart.symm

theorem select_eq_ok_iff (total : Nat) (size : Int) (token : String) (p : Page) :
    select total size token = .ok p ↔
      0 ≤ size ∧ ∃ start, Names total token start ∧ p = ofStart total size.toNat start := by
  rw [select]
  split
  · rename_i hneg
    constructor
    · intro h
      cases h
    · intro h
      exact absurd h.1 (Int.not_le.mpr hneg)
  · rename_i hsize
    constructor
    · intro h
      cases hstart : startOf total token with
      | ok start =>
        rw [hstart] at h
        exact ⟨Int.not_lt.mp hsize, start, (startOf_eq_ok_iff total token start).mp hstart,
          (Except.ok.inj h).symm⟩
      | error s =>
        rw [hstart] at h
        cases h
    · intro h
      obtain ⟨-, start, hnames, rfl⟩ := h
      rw [(startOf_eq_ok_iff total token start).mpr hnames]
      rfl

theorem exists_select_iff (total : Nat) (size : Int) (token : String) :
    (∃ p, select total size token = .ok p) ↔ 0 ≤ size ∧ ∃ index, Names total token index := by
  constructor
  · intro h
    obtain ⟨p, hp⟩ := h
    obtain ⟨hsize, index, hnames, -⟩ := (select_eq_ok_iff total size token p).mp hp
    exact ⟨hsize, index, hnames⟩
  · intro h
    obtain ⟨hsize, index, hnames⟩ := h
    exact ⟨_, (select_eq_ok_iff total size token _).mpr ⟨hsize, index, hnames, rfl⟩⟩

theorem select_of_negative {size : Int} (h : size < 0) (total : Nat) (token : String) :
    select total size token = .error negativeSize := if_pos h

theorem select_of_no_index {total : Nat} {size : Int} {token : String} (hsize : 0 ≤ size)
    (h : ∀ index, ¬ Names total token index) :
    select total size token = .error (badToken token total) := by
  rw [select, if_neg (Int.not_lt.mpr hsize), startOf_eq_error h]
  rfl

theorem code_of_select_error {total : Nat} {size : Int} {token : String} {s : Status}
    (h : select total size token = .error s) : s.code = .invalidArgument := by
  by_cases hsize : size < 0
  · rw [select_of_negative hsize] at h
    rw [← Except.error.inj h]
    rfl
  · by_cases hnames : ∃ index, Names total token index
    · obtain ⟨p, hp⟩ := (exists_select_iff total size token).mpr ⟨Int.not_lt.mp hsize, hnames⟩
      rw [hp] at h
      cases h
    · rw [select_of_no_index (Int.not_lt.mp hsize) (not_exists.mp hnames)] at h
      rw [← Except.error.inj h]
      rfl

/-- The token of a page selects the page that begins where the first one ends. -/
theorem select_nextToken {total size start : Nat}
    (h : (ofStart total size start).nextToken ≠ "") {next : Int} (hnext : 0 ≤ next) :
    ∃ q, select total next (ofStart total size start).nextToken = .ok q ∧
      q.start = (ofStart total size start).stop := by
  have hstart := (startOf_nextToken h).2
  have hnames := (startOf_eq_ok_iff total _ _).mp hstart
  exact ⟨_, (select_eq_ok_iff total next _ _).mpr ⟨hnext, _, hnames, rfl⟩, rfl⟩

/-- A page with words for its ends. -/
structure WordPage where
  start : UInt64
  stop : UInt64
  nextToken : String

def WordPage.page (p : WordPage) : Page := ⟨p.start.toNat, p.stop.toNat, p.nextToken⟩

def startInWords (total : UInt64) (token : String) : Except Status UInt64 :=
  if token.isEmpty then .ok 0
  else match Text.wordOf? token with
    | some index => if index < total then .ok index else .error (badToken token total.toNat)
    | none => .error (badToken token total.toNat)

def pageInWords (total size start : UInt64) : WordPage :=
  let stop := min (Word.addUpTo start (if size = 0 then total else size)) total
  { start, stop, nextToken := if stop < total then tokenOf stop.toNat else "" }

/-- The page of `total` words that a size and a token select, computed in words. -/
def selectInWords (total : UInt64) (size : Int32) (token : String) : Except Status WordPage :=
  if size.toInt < 0 then .error negativeSize
  else (startInWords total token).map (pageInWords total (UInt64.ofNat size.toInt.toNat))

theorem startInWords_eq (total : UInt64) (token : String) :
    (startInWords total token).map UInt64.toNat = startOf total.toNat token := by
  have htotal : total.toNat < 18446744073709551616 := total.toNat_lt
  rw [startInWords, startOf, Text.wordOf?_eq_bind]
  split
  · rfl
  · cases hcount : Text.countOf? token with
    | none => rfl
    | some n =>
      rw [Option.bind_some]
      dsimp only
      cases hword : Word.ofNat? n with
      | some w =>
        obtain rfl := (Word.ofNat?_eq_some_iff n w).mp hword
        by_cases hlt : w < total
        · rw [if_pos (UInt64.lt_iff_toNat_lt.mp hlt)]
          dsimp only
          rw [if_pos hlt]
          rfl
        · rw [if_neg fun h => hlt (UInt64.lt_iff_toNat_lt.mpr h)]
          dsimp only
          rw [if_neg hlt]
          rfl
      | none =>
        -- what does not fit a word is above the total
        have hlarge := (Word.ofNat?_eq_none_iff n).mp hword
        rw [if_neg (by omega)]
        rfl

/-- A sum that stopped at the greatest word is cut off at the total as the whole sum is. -/
theorem toNat_min_addUpTo (start size total : UInt64) :
    (min (Word.addUpTo start size) total).toNat =
      min (start.toNat + size.toNat) total.toNat := by
  have htotal : total.toNat < 18446744073709551616 := total.toNat_lt
  have hmin : (min (Word.addUpTo start size) total).toNat =
      min (Word.addUpTo start size).toNat total.toNat := by
    rw [Nat.min_def]
    exact apply_ite UInt64.toNat _ _ _
  rw [hmin, Word.toNat_addUpTo]
  omega

theorem pageInWords_eq (total size start : UInt64) :
    (pageInWords total size start).page = ofStart total.toNat size.toNat start.toNat := by
  have hzero : size = 0 ↔ size.toNat = 0 := by rw [← UInt64.toNat_inj, UInt64.toNat_zero]
  have hsize : (if size = 0 then total else size).toNat =
      if size.toNat = 0 then total.toNat else size.toNat := by
    simp only [← hzero]
    exact apply_ite UInt64.toNat _ _ _
  have hstop := toNat_min_addUpTo start (if size = 0 then total else size) total
  rw [hsize] at hstop
  simp only [pageInWords, WordPage.page, ofStart, UInt64.lt_iff_toNat_lt, hstop]

theorem selectInWords_eq (total : UInt64) (size : Int32) (token : String) :
    (selectInWords total size token).map WordPage.page =
      select total.toNat size.toInt token := by
  have hlt : size.toInt < 2147483648 := size.toInt_lt
  rw [selectInWords, select]
  split
  · rfl
  · have hsize : (UInt64.ofNat size.toInt.toNat).toNat = size.toInt.toNat := by
      apply UInt64.toNat_ofNat_of_lt'
      show size.toInt.toNat < 18446744073709551616
      omega
    rw [← startInWords_eq]
    cases startInWords total token with
    | error s => rfl
    | ok start =>
      have hpage := pageInWords_eq total (UInt64.ofNat size.toInt.toNat) start
      rw [hsize] at hpage
      exact congrArg Except.ok hpage

/-- A page is selected by a size that is not negative and a token that is empty or spells an index
among the words. The selection in machine words is the same one. -/
theorem pages_selected_by_value (total : UInt64) (size : Int32) (token : String) :
    ((∃ p, select total.toNat size.toInt token = .ok p) ↔
      0 ≤ size.toInt ∧ (token = "" ∨ ∃ n, Text.Spells token n ∧ n < total.toNat)) ∧
    (∀ p, select total.toNat size.toInt token = .ok p →
      (token = "" ∧ p.start = 0 ∨ Text.Spells token p.start ∧ p.start < total.toNat) ∧
      p.start ≤ p.stop ∧ p.stop ≤ total.toNat ∧
      p.stop = (if size = 0 then total.toNat
        else min (p.start + size.toInt.toNat) total.toNat) ∧
      (total ≠ 0 → p.start < p.stop) ∧
      (p.nextToken = "" ↔ p.stop = total.toNat) ∧
      (p.nextToken ≠ "" → ∀ next : Int32, 0 ≤ next.toInt →
        ∃ q, select total.toNat next.toInt p.nextToken = .ok q ∧ q.start = p.stop)) ∧
    (size.toInt < 0 → select total.toNat size.toInt token = .error negativeSize) ∧
    (0 ≤ size.toInt → ¬ (token = "" ∨ ∃ n, Text.Spells token n ∧ n < total.toNat) →
      select total.toNat size.toInt token = .error (badToken token total.toNat)) ∧
    (∀ s, select total.toNat size.toInt token = .error s → s.code = .invalidArgument) ∧
    (selectInWords total size token).map WordPage.page =
      select total.toNat size.toInt token := by
  have hnamed := exists_names_iff total.toNat token
  have hsizeZero : size = 0 ↔ size.toInt.toNat = 0 ∧ 0 ≤ size.toInt := by
    rw [← Int32.toInt_inj, Int32.toInt_zero]
    omega
  refine ⟨?_, ?_, fun hsize => select_of_negative hsize _ _, ?_,
    fun s => code_of_select_error, selectInWords_eq total size token⟩
  · rw [exists_select_iff, hnamed]
  · intro p hp
    obtain ⟨hsize, start, hnames, rfl⟩ := (select_eq_ok_iff _ _ _ p).mp hp
    refine ⟨hnames, le_stop _ hnames.le, stop_le, ?_, ?_, nextToken_eq_empty_iff,
      fun hnext next => select_nextToken hnext⟩
    · simp only [ofStart, hsizeZero, hsize, and_true]
      split
      · exact Nat.min_eq_right (Nat.le_add_left _ _)
      · rfl
    · intro htotal
      apply lt_stop
      apply hnames.lt
      intro hzero
      exact htotal (UInt64.toNat_inj.mp hzero)
  · intro hsize hbad
    rw [← hnamed] at hbad
    exact select_of_no_index hsize (not_exists.mp hbad)

/-- As many words as a word of the machine counts: a page that begins two words before the end and
asks for far more, and a token of which a word of the machine would make zero. -/
theorem pages_selected_by_value_last_words :
    (∃ p, select 18446744073709551615 2147483647 "+018446744073709551613" = .ok p ∧
      p.stop = 18446744073709551615 ∧ p.nextToken = "") ∧
    select 18446744073709551615 1 "18446744073709551616" =
      .error (badToken "18446744073709551616" 18446744073709551615) := by
  have hread : Text.countOf? "+018446744073709551613" = some 18446744073709551613 := by
    decide +kernel
  have hwrapped : Text.countOf? "18446744073709551616" = some 18446744073709551616 := by
    decide +kernel
  obtain ⟨hselects, hpage, -⟩ :=
    pages_selected_by_value 18446744073709551615 2147483647 "+018446744073709551613"
  obtain ⟨-, -, -, hrefused, -⟩ :=
    pages_selected_by_value 18446744073709551615 1 "18446744073709551616"
  constructor
  · have hspells := (Text.countOf?_eq_some_iff _ _).mp hread
    obtain ⟨p, hp⟩ := hselects.mpr ⟨by decide, Or.inr ⟨_, hspells, by decide⟩⟩
    obtain ⟨hstart, -, -, hstop, -, hlast, -⟩ := hpage p hp
    have hbegins : p.start = 18446744073709551613 := by
      rcases hstart with ⟨hempty, -⟩ | ⟨hspells, -⟩
      · exact absurd hempty (by decide)
      · exact Option.some.inj (((Text.countOf?_eq_some_iff _ _).mpr hspells).symm.trans hread)
    rw [hbegins] at hstop
    have hends : p.stop = 18446744073709551615 := hstop
    exact ⟨p, hp, hends, hlast.mpr hends⟩
  · apply hrefused (by decide)
    intro h
    rcases h with hempty | ⟨n, hspells, hlt⟩
    · exact absurd hempty (by decide)
    · have hn := Option.some.inj
        (((Text.countOf?_eq_some_iff _ n).mpr hspells).symm.trans hwrapped)
      rw [hn] at hlt
      exact absurd hlt (by decide)

end EchoServer.Page
