import EchoServer.Text.Words
import Mathlib.Data.List.Basic
import Mathlib.Data.List.Induction

namespace EchoServer.Text

/-- All of these characters are white space. -/
def Blank (cs : List Char) : Prop := ∀ c ∈ cs, isBlank c = true

/-- There is some character, and none is white space. -/
structure IsWord (cs : List Char) : Prop where
  ne_nil : cs ≠ []
  solid : ∀ c ∈ cs, isBlank c = false

/-- The text is the white space `gap`, and then the words `ws` with white space behind each, which
is not empty between two of them. -/
inductive Spaced : List Char → List (List Char) → List Char → Prop
  | nil {gap} (hgap : Blank gap) : Spaced gap [] gap
  | cons {gap w next ws cs} (hgap : Blank gap) (hw : IsWord w) (hnext : next ≠ [] ∨ ws = [])
      (h : Spaced next ws cs) : Spaced gap (w :: ws) (gap ++ (w ++ cs))

/-- Between `before` and `behind`, `w` is a word that goes on in neither direction. -/
structure IsRun (before w behind : List Char) : Prop where
  word : IsWord w
  starts : ∀ c ∈ before.getLast?, isBlank c = true
  stops : ∀ c ∈ behind.head?, isBlank c = true

section
variable {cs gap w before behind : List Char} {ws : List (List Char)}

/-- The state in which reading from the end leaves a text. -/
def edge (cs : List Char) : List Char × List (List Char) := cs.foldr cutStep ([], [])

theorem runs_eq_edge (cs : List Char) : runs cs = flushRun (edge cs).1 (edge cs).2 := rfl

/-- White space ends the run. -/
theorem edge_of_head_blank (h : ∀ c ∈ cs.head?, isBlank c = true) : edge cs = ([], runs cs) := by
  cases cs with
  | nil => rfl
  | cons c cs =>
    have hc : isBlank c = true := h c rfl
    rw [runs_cons_blank hc]
    show cutStep c (edge cs) = _
    rw [cutStep, if_pos hc]
    rfl

/-- What is not white space extends the run. -/
theorem foldr_cutStep_solid (hw : ∀ c ∈ w, isBlank c = false) (run : List Char) :
    w.foldr cutStep (run, ws) = (w ++ run, ws) := by
  induction w with
  | nil => rfl
  | cons c w ih =>
    obtain ⟨hc, hrest⟩ := List.forall_mem_cons.mp hw
    rw [List.foldr_cons, ih hrest, cutStep, hc]
    rfl

/-- Words that were found before stay behind those that are found. -/
theorem foldr_cutStep_append (cs : List Char) (ws : List (List Char)) :
    cs.foldr cutStep ([], ws) = ((edge cs).1, (edge cs).2 ++ ws) := by
  induction cs with
  | nil => rfl
  | cons c cs ih =>
    have hedge : edge (c :: cs) = cutStep c (edge cs) := rfl
    rw [List.foldr_cons, ih, hedge, cutStep, cutStep]
    by_cases hc : isBlank c
    · by_cases hrun : (edge cs).1.isEmpty <;> simp [hc, flushRun, hrun]
    · simp [hc]

theorem runs_blank_append (hgap : Blank gap) (cs : List Char) : runs (gap ++ cs) = runs cs := by
  induction gap with
  | nil => rfl
  | cons c gap ih =>
    obtain ⟨hc, hrest⟩ := List.forall_mem_cons.mp hgap
    rw [List.cons_append, runs_cons_blank hc, ih hrest]

theorem runs_word_append (hw : IsWord w) (h : ∀ c ∈ cs.head?, isBlank c = true) :
    runs (w ++ cs) = w :: runs cs := by
  have hedge : edge (w ++ cs) = (w, runs cs) := by
    show (w ++ cs).foldr cutStep ([], []) = _
    have hfront : cs.foldr cutStep ([], []) = ([], runs cs) := edge_of_head_blank h
    rw [List.foldr_append, hfront, foldr_cutStep_solid hw.solid, List.append_nil]
  rw [runs_eq_edge, hedge, flushRun, if_neg]
  simpa using hw.ne_nil

/-- White space in front of the second text keeps the two apart. -/
theorem runs_append_of_head_blank (cs : List Char) (h : ∀ c ∈ behind.head?, isBlank c = true) :
    runs (cs ++ behind) = runs cs ++ runs behind := by
  have hfront : behind.foldr cutStep ([], []) = ([], runs behind) := edge_of_head_blank h
  have hedge : edge (cs ++ behind) = ((edge cs).1, (edge cs).2 ++ runs behind) := by
    show (cs ++ behind).foldr cutStep ([], []) = _
    rw [List.foldr_append, hfront, foldr_cutStep_append]
  rw [runs_eq_edge (cs ++ behind), hedge, runs_eq_edge cs, flushRun, flushRun]
  split <;> rfl

/-- So does white space at the end of the first text. -/
theorem runs_append_of_getLast_blank (h : ∀ c ∈ before.getLast?, isBlank c = true)
    (cs : List Char) : runs (before ++ cs) = runs before ++ runs cs := by
  induction before using List.reverseRecOn with
  | nil => rfl
  | append_singleton before c _ =>
    have hc : isBlank c = true := h c (by simp)
    have hsplit (cs : List Char) : runs (before ++ c :: cs) = runs before ++ runs cs := by
      rw [runs_append_of_head_blank before, runs_cons_blank hc]
      simpa using hc
    have hlast := hsplit []
    rw [runs_nil, List.append_nil] at hlast
    rw [List.append_assoc, List.singleton_append, hsplit, hlast]

theorem Spaced.head_blank (h : Spaced gap ws cs) (hgap : gap ≠ [] ∨ ws = []) :
    ∀ c ∈ cs.head?, isBlank c = true := by
  cases h with
  | nil hblank =>
    intro c hc
    exact hblank c (List.mem_of_mem_head? hc)
  | cons hblank hw hnext h =>
    have hne : gap ≠ [] := hgap.resolve_right (List.cons_ne_nil _ _)
    obtain ⟨c, gap, rfl⟩ := List.exists_cons_of_ne_nil hne
    intro d hd
    obtain rfl : c = d := by simpa using hd
    exact hblank c (List.mem_cons_self ..)

/-- The words that lie in a text are its runs. -/
theorem Spaced.eq_runs (h : Spaced gap ws cs) : ws = runs cs := by
  induction h with
  | nil hgap =>
    have hnone := runs_blank_append hgap []
    rw [List.append_nil, runs_nil] at hnone
    exact hnone.symm
  | cons hgap hw hnext h ih =>
    rw [runs_blank_append hgap, runs_word_append hw (h.head_blank hnext), ← ih]

theorem exists_spaced (cs : List Char) : ∃ gap, Spaced gap (runs cs) cs := by
  -- one character more is white space, or a word by itself, or the first character of a word
  induction cs with
  | nil => exact ⟨[], .nil fun c hc => by cases hc⟩
  | cons c cs ih =>
    obtain ⟨gap, h⟩ := ih
    by_cases hc : isBlank c
    · rw [runs_cons_blank hc]
      have hlonger (hgap : Blank gap) : Blank (c :: gap) := List.forall_mem_cons.mpr ⟨hc, hgap⟩
      refine ⟨c :: gap, ?_⟩
      generalize runs cs = ws at h
      cases h with
      | nil hgap => exact .nil (hlonger hgap)
      | cons hgap hw hnext h => exact .cons (hlonger hgap) hw hnext h
    · have hsolid : isBlank c = false := by simpa using hc
      have hsingle : IsWord [c] := ⟨List.cons_ne_nil _ _, by simpa using hsolid⟩
      have hempty : Blank [] := fun d hd => by cases hd
      refine ⟨[], ?_⟩
      by_cases hfirst : gap ≠ [] ∨ runs cs = []
      · rw [← List.singleton_append, runs_word_append hsingle (h.head_blank hfirst)]
        exact .cons hempty hsingle hfirst h
      · obtain ⟨hgap, hwords⟩ := not_or.mp hfirst
        obtain rfl : gap = [] := by simpa using hgap
        have hruns := h.eq_runs
        generalize runs cs = ws at h hruns hwords
        cases h with
        | nil => exact absurd rfl hwords
        | @cons _ w next ws rest _ hw hnext h =>
          have hlonger : IsWord (c :: w) :=
            ⟨List.cons_ne_nil _ _, List.forall_mem_cons.mpr ⟨hsolid, hw.solid⟩⟩
          have hword := runs_word_append hlonger (h.head_blank hnext)
          rw [← h.eq_runs] at hword
          rw [List.nil_append, ← List.cons_append, hword]
          exact .cons hempty hlonger hnext h

theorem spaced_iff : (∃ gap, Spaced gap ws cs) ↔ ws = runs cs := by
  constructor
  · rintro ⟨gap, h⟩
    exact h.eq_runs
  · rintro rfl
    exact exists_spaced cs

theorem Spaced.isWord (h : Spaced gap ws cs) (hw : w ∈ ws) : IsWord w := by
  induction h with
  | nil => cases hw
  | cons _ hword _ _ ih =>
    rcases List.mem_cons.mp hw with rfl | hw
    · exact hword
    · exact ih hw

theorem isWord_of_mem_runs (hw : w ∈ runs cs) : IsWord w := by
  obtain ⟨gap, h⟩ := exists_spaced cs
  exact h.isWord hw

/-- A run that goes on in neither direction is the word at its place. -/
theorem IsRun.runs_eq (h : IsRun before w behind) :
    runs (before ++ (w ++ behind)) = runs before ++ w :: runs behind := by
  rw [runs_append_of_getLast_blank h.starts, runs_word_append h.word h.stops]

/-- Each word has a place where it goes on in neither direction. -/
theorem Spaced.exists_isRun {ws₁ ws₂ : List (List Char)} (h : Spaced gap (ws₁ ++ w :: ws₂) cs) :
    ∃ before behind, cs = before ++ (w ++ behind) ∧ IsRun before w behind ∧
      runs before = ws₁ ∧ runs behind = ws₂ := by
  have hblank {gap : List Char} (hgap : Blank gap) : ∀ c ∈ gap.getLast?, isBlank c = true :=
    fun c hc => hgap c (List.mem_of_getLast? hc)
  induction ws₁ generalizing gap cs with
  | nil =>
    cases h with
    | @cons _ _ next _ rest hgap hw hnext h =>
      have hnone := runs_blank_append hgap []
      rw [List.append_nil, runs_nil] at hnone
      exact ⟨gap, rest, rfl, ⟨hw, hblank hgap, h.head_blank hnext⟩, hnone, h.eq_runs.symm⟩
  | cons first ws₁ ih =>
    cases h with
    | @cons _ _ next _ rest hgap hfirst hnext h =>
      have hstops := h.head_blank hnext
      obtain ⟨before, behind, rfl, hrun, hbefore, hbehind⟩ := ih h
      -- white space stands behind the first word, so something stands before the other
      have hne : before ≠ [] := by
        rintro rfl
        obtain ⟨c, w, rfl⟩ := List.exists_cons_of_ne_nil hrun.word.ne_nil
        have hsolid := hrun.word.solid c (List.mem_cons_self ..)
        rw [hstops c rfl] at hsolid
        cases hsolid
      have hhead : ∀ c ∈ before.head?, isBlank c = true := by
        obtain ⟨c, before, rfl⟩ := List.exists_cons_of_ne_nil hne
        exact hstops
      refine ⟨gap ++ (first ++ before), behind, by simp, ⟨hrun.word, ?_, hrun.stops⟩, ?_, hbehind⟩
      · rw [List.getLast?_append_of_ne_nil _ (by simp [hne]),
          List.getLast?_append_of_ne_nil _ hne]
        exact hrun.starts
      · rw [runs_blank_append hgap, runs_word_append hfirst hhead, hbefore]

end

theorem map_toList_words (text : String) : (words text).map String.toList = runs text.toList := by
  rw [words, List.map_map]
  have hsame : String.toList ∘ String.ofList = id := funext fun cs => String.toList_ofList
  rw [hsame, List.map_id]

/-- Texts are lists of characters, and so are words. -/
theorem words_eq_iff (text : String) (ws : List String) :
    words text = ws ↔ runs text.toList = ws.map String.toList := by
  rw [← map_toList_words]
  have hinj : Function.Injective String.toList := fun _ _ h => String.toList_inj.mp h
  exact ⟨fun h => h ▸ rfl, fun h => List.map_injective_iff.mpr hinj h⟩

theorem isWord_of_mem_words {text word : String} (h : word ∈ words text) : IsWord word.toList := by
  have hmem : word.toList ∈ runs text.toList := by
    rw [← map_toList_words]
    exact List.mem_map_of_mem h
  exact isWord_of_mem_runs hmem

/-- The words are the only ones that lie in the text with white space between them. -/
theorem spaced_words_iff (text : String) (ws : List String) :
    (∃ gap, Spaced gap (ws.map String.toList) text.toList) ↔ ws = words text := by
  rw [spaced_iff, eq_comm, ← words_eq_iff, eq_comm]

/-- The words before one of them, it, and the words behind it are those of the pieces of text around
a run that goes on in neither direction. -/
theorem words_eq_append_cons_iff (text : String) (ws₁ : List String) (word : String)
    (ws₂ : List String) :
    words text = ws₁ ++ word :: ws₂ ↔ ∃ before behind, text = before ++ word ++ behind ∧
      IsRun before.toList word.toList behind.toList ∧ words before = ws₁ ∧ words behind = ws₂ := by
  rw [words_eq_iff, List.map_append, List.map_cons]
  constructor
  · intro h
    obtain ⟨gap, hspaced⟩ := exists_spaced text.toList
    rw [h] at hspaced
    obtain ⟨before, behind, htext, hrun, hbefore, hbehind⟩ := hspaced.exists_isRun
    refine ⟨String.ofList before, String.ofList behind, ?_, ?_, ?_, ?_⟩
    · rw [← String.toList_inj]
      simp only [String.toList_append, String.toList_ofList, htext, List.append_assoc]
    · rw [String.toList_ofList, String.toList_ofList]
      exact hrun
    · rw [words_eq_iff, String.toList_ofList, hbefore]
    · rw [words_eq_iff, String.toList_ofList, hbehind]
  · rintro ⟨before, behind, rfl, hrun, rfl, rfl⟩
    rw [String.toList_append, String.toList_append, List.append_assoc, hrun.runs_eq,
      map_toList_words, map_toList_words]

/-- White space between two texts keeps their words apart. -/
theorem words_append_blank_append (a b : String) {gap : String} (hne : gap ≠ "")
    (hblank : Blank gap.toList) : words (a ++ gap ++ b) = words a ++ words b := by
  obtain ⟨c, cs, hcs⟩ : ∃ c cs, gap.toList = c :: cs := by
    apply List.exists_cons_of_ne_nil
    intro h
    exact hne (String.toList_inj.mp h)
  have hhead : ∀ d ∈ (gap.toList ++ b.toList).head?, isBlank d = true := by
    rw [hcs] at hblank ⊢
    intro d hd
    obtain rfl : c = d := by simpa using hd
    exact hblank c (List.mem_cons_self ..)
  rw [words_eq_iff, String.toList_append, String.toList_append, List.append_assoc,
    runs_append_of_head_blank _ hhead, runs_blank_append hblank, List.map_append,
    map_toList_words, map_toList_words]

theorem words_of_isWord {word : String} (h : IsWord word.toList) : words word = [word] := by
  have hnone : ∀ c ∈ ([] : List Char).head?, isBlank c = true := fun c hc => by cases hc
  have hruns := runs_word_append h hnone
  rw [List.append_nil, runs_nil] at hruns
  rw [words_eq_iff, hruns]
  rfl

/-- Words joined by single spaces come apart again. -/
theorem words_joinWords (ws : List String) (h : ∀ word ∈ ws, IsWord word.toList) :
    words (joinWords ws) = ws := by
  induction ws with
  | nil => rfl
  | cons first ws ih =>
    obtain ⟨hfirst, hrest⟩ := List.forall_mem_cons.mp h
    cases ws with
    | nil =>
      rw [joinWords, String.intercalate_singleton]
      exact words_of_isWord hfirst
    | cons second ws =>
      have hspace : Blank " ".toList := by
        intro c hc
        obtain rfl : c = ' ' := by simpa using hc
        exact isBlank_space
      have hjoin : joinWords (first :: second :: ws) = first ++ " " ++ joinWords (second :: ws) :=
        String.intercalate_cons_cons
      rw [hjoin, words_append_blank_append _ _ (by decide) hspace, words_of_isWord hfirst,
        ih hrest, List.singleton_append]

end EchoServer.Text
