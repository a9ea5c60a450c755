import EchoServer.Service.Handlers

namespace EchoServer

/-- A printed index is read back. -/
theorem Text.countOf?_tokenOf (index : Nat) : Text.countOf? (Page.tokenOf index) = some index := by
  have hdigit (c : Char) (h : c ∈ Nat.toDigits 10 index) : c.isDigit = true :=
    Nat.isDigit_of_mem_toDigits (by decide) (by decide) h
  have hall : (Nat.toDigits 10 index).all Char.isDigit = true := List.all_eq_true.mpr hdigit
  have hnumber : Nat.ofDigitChars 10 (Nat.toDigits 10 index) 0 = index :=
    Nat.ofDigitChars_ten_toDigits
  have hlist : (Page.tokenOf index).toList = Nat.toDigits 10 index := String.toList_ofList
  unfold Text.countOf?
  rw [hlist]
  cases hds : Nat.toDigits 10 index with
  | nil => exact absurd hds Nat.toDigits_ne_nil
  | cons c ds =>
    rw [hds] at hall hnumber
    -- the first digit is no plus sign
    have hplus : c ≠ '+' := by
      intro h
      have hc := hdigit c (by simp [hds])
      rw [h] at hc
      exact absurd hc (by decide)
    split
    · rename_i heq
      exact absurd (List.cons.inj heq).1 hplus
    · simp [hall, hnumber]

namespace Page

theorem tokenOf_ne_empty (index : Nat) : tokenOf index ≠ "" := by
  intro h
  have hlist := congrArg String.toList h
  simp only [tokenOf, String.toList_ofList] at hlist
  exact Nat.toDigits_ne_nil hlist

theorem startOf_tokenOf (total index : Nat) (h : index < total) :
    startOf total (tokenOf index) = .ok index := by
  have hsome : (tokenOf index).isEmpty = false := by
    simpa [String.isEmpty_iff] using tokenOf_ne_empty index
  simp [startOf, hsome, Text.countOf?_tokenOf, h]

section
variable {total size start : Nat}

theorem stop_le : (ofStart total size start).stop ≤ total := Nat.min_le_right _ _

theorem le_stop (size : Nat) (h : start ≤ total) : start ≤ (ofStart total size start).stop := by
  simp only [ofStart, Nat.le_min]
  omega

theorem lt_stop (size : Nat) (h : start < total) : start < (ofStart total size start).stop := by
  simp only [ofStart, Nat.lt_min]
  split <;> omega

theorem nextToken_eq_empty_iff :
    (ofStart total size start).nextToken = "" ↔ (ofStart total size start).stop = total := by
  have hle : (ofStart total size start).stop ≤ total := stop_le
  by_cases hlt : (ofStart total size start).stop < total
  · have htoken : (ofStart total size start).nextToken =
        tokenOf (ofStart total size start).stop := if_pos hlt
    rw [htoken]
    constructor
    · intro h
      exact absurd h (tokenOf_ne_empty _)
    · intro h
      omega
  · have htoken : (ofStart total size start).nextToken = "" := if_neg hlt
    rw [htoken]
    constructor
    · intro _
      omega
    · intro _
      rfl

/-- The token of a page stands for the words behind the page. -/
theorem startOf_nextToken (h : (ofStart total size start).nextToken ≠ "") :
    (ofStart total size start).stop < total ∧
      startOf total (ofStart total size start).nextToken =
        .ok (ofStart total size start).stop := by
  have hlt : (ofStart total size start).stop < total :=
    Nat.lt_of_le_of_ne stop_le fun hstop => h (nextToken_eq_empty_iff.mpr hstop)
  have htoken : (ofStart total size start).nextToken =
      tokenOf (ofStart total size start).stop := if_pos hlt
  exact ⟨hlt, by rw [htoken, startOf_tokenOf total _ hlt]⟩

end

/-- A page and what is behind it are all items from its start on. -/
theorem slice_append_drop {α : Type} (items : List α) (size start : Nat)
    (h : start ≤ items.length) :
    (ofStart items.length size start).slice items ++
      items.drop (ofStart items.length size start).stop = items.drop start := by
  have hle : start ≤ (ofStart items.length size start).stop := le_stop size h
  have hback : items.drop (ofStart items.length size start).stop =
      (items.drop start).drop ((ofStart items.length size start).stop - start) := by
    rw [List.drop_drop, Nat.add_sub_cancel' hle]
  rw [hback]
  exact List.take_append_drop _ _

/-- What a page of words is answered with. -/
def response (p : Page) (words : List String) : PagedExpandResponse :=
  { responses := (p.slice words).map EchoResponse.ofContent, nextPageToken := p.nextToken }

end Page

namespace Service

/-- How a client asks for one more page: the metadata of the call, the page size, and whether the
request is one in the older form. -/
structure Ask where
  metadata : Metadata
  size : Int32
  legacy : Bool

/-- What a client that asks for the page of a token comes to. -/
def Ask.page (a : Ask) (content token : String) : Outcome PagedExpandResponse :=
  if a.legacy then pagedExpandLegacy a.metadata ⟨content, a.size, token⟩
  else pagedExpand a.metadata ⟨content, a.size, token⟩

/-- From the `i`-th request on, which has this token, every request succeeds and the next one has
the token of its page, until a page has none: these are the pages. -/
inductive Walk (content : String) (asks : Nat → Ask) :
    Nat → String → List PagedExpandResponse → Prop
  | last {i : Nat} {token : String} {p : PagedExpandResponse}
      (hpage : ((asks i).page content token).result = .ok p) (hlast : p.nextPageToken = "") :
      Walk content asks i token [p]
  | more {i : Nat} {token : String} {p : PagedExpandResponse} {ps : List PagedExpandResponse}
      (hpage : ((asks i).page content token).result = .ok p) (hmore : p.nextPageToken ≠ "")
      (hrest : Walk content asks (i + 1) p.nextPageToken ps) :
      Walk content asks i token (p :: ps)

/-- The page that a token with an index among the words selects, if the size is not negative. -/
theorem Ask.page_result (a : Ask) (content token : String) (start : Nat)
    (hsize : 0 ≤ a.size.toInt)
    (hstart : Page.startOf (Text.words content).length token = .ok start) :
    (a.page content token).result = .ok
      ((Page.ofStart (Text.words content).length a.size.toInt.toNat start).response
        (Text.words content)) := by
  have hselect : Page.select (Text.words content).length a.size.toInt token =
      .ok (Page.ofStart (Text.words content).length a.size.toInt.toNat start) := by
    rw [Page.select, if_neg (Int.not_lt.mpr hsize), hstart]
    rfl
  have hpaged : (pagedExpand a.metadata ⟨content, a.size, token⟩).result = .ok
      ((Page.ofStart (Text.words content).length a.size.toInt.toNat start).response
        (Text.words content)) := by
    simp only [pagedExpand, hselect]
    rfl
  unfold Ask.page
  split
  · exact hpaged
  · exact hpaged

section
variable {content : String} {asks : Nat → Ask} {i start : Nat} {token : String}
  {pages : List PagedExpandResponse}

theorem Walk.unique (h : Walk content asks i token pages) :
    ∀ pages', Walk content asks i token pages' → pages' = pages := by
  induction h with
  | last hpage hlast =>
    intro pages' h'
    cases h' with
    | last hpage' _ => rw [Except.ok.inj (hpage'.symm.trans hpage)]
    | more hpage' hmore' _ =>
      rw [Except.ok.inj (hpage'.symm.trans hpage)] at hmore'
      exact absurd hlast hmore'
  | more hpage hmore _ ih =>
    intro pages' h'
    cases h' with
    | last hpage' hlast' =>
      rw [Except.ok.inj (hpage'.symm.trans hpage)] at hlast'
      exact absurd hlast' hmore
    | more hpage' _ hrest' =>
      have hp := Except.ok.inj (hpage'.symm.trans hpage)
      rw [hp] at hrest' ⊢
      rw [ih _ hrest']

variable (hsizes : ∀ i, 0 ≤ (asks i).size.toInt)
include hsizes

/-- From any word on the client comes to the end: a page that has a token leaves fewer words. -/
theorem exists_walk (hstart : Page.startOf (Text.words content).length token = .ok start)
    (hle : start ≤ (Text.words content).length) : ∃ pages, Walk content asks i token pages := by
  induction hleft : (Text.words content).length - start using Nat.strongRecOn
    generalizing i start token with
  | ind left ih =>
    have hpage := (asks i).page_result content token start (hsizes i) hstart
    by_cases hlast : (Page.ofStart (Text.words content).length (asks i).size.toInt.toNat
        start).nextToken = ""
    · exact ⟨_, .last hpage hlast⟩
    · obtain ⟨hlt, hnext⟩ := Page.startOf_nextToken hlast
      have hle' := Page.le_stop (asks i).size.toInt.toNat hle
      have hgrows : start < (Page.ofStart (Text.words content).length
          (asks i).size.toInt.toNat start).stop := Page.lt_stop _ (by omega)
      obtain ⟨ps, hps⟩ := ih _ (by omega) hnext (Nat.le_of_lt hlt) rfl
      exact ⟨_, .more hpage hlast hps⟩

/-- The pages are the words from the first page's start on, each once and in order. -/
theorem Walk.responses (h : Walk content asks i token pages)
    (hstart : Page.startOf (Text.words content).length token = .ok start)
    (hle : start ≤ (Text.words content).length) :
    pages.flatMap (·.responses) =
      ((Text.words content).drop start).map EchoResponse.ofContent := by
  induction h generalizing start with
  | @last i token p hpage hlast =>
    obtain rfl := Except.ok.inj
      (hpage.symm.trans ((asks i).page_result content token start (hsizes i) hstart))
    have hslice := Page.slice_append_drop (Text.words content) (asks i).size.toInt.toNat start hle
    rw [Page.nextToken_eq_empty_iff.mp hlast, List.drop_length, List.append_nil] at hslice
    rw [← hslice]
    simp [Page.response]
  | @more i token p ps hpage hmore _ ih =>
    obtain rfl := Except.ok.inj
      (hpage.symm.trans ((asks i).page_result content token start (hsizes i) hstart))
    have hslice := Page.slice_append_drop (Text.words content) (asks i).size.toInt.toNat start hle
    obtain ⟨hlt, hnext⟩ := Page.startOf_nextToken hmore
    rw [List.flatMap_cons, ih hnext (Nat.le_of_lt hlt), ← hslice, List.map_append]
    rfl

/-- There is a request for each word left at most, and one if none is left. -/
theorem Walk.length_le (h : Walk content asks i token pages)
    (hstart : Page.startOf (Text.words content).length token = .ok start)
    (hle : start ≤ (Text.words content).length) :
    pages.length ≤ max 1 ((Text.words content).length - start) := by
  induction h generalizing start with
  | last _ _ => exact Nat.le_max_left _ _
  | @more i token p ps hpage hmore _ ih =>
    obtain rfl := Except.ok.inj
      (hpage.symm.trans ((asks i).page_result content token start (hsizes i) hstart))
    obtain ⟨hlt, hnext⟩ := Page.startOf_nextToken hmore
    have hle' := Page.le_stop (asks i).size.toInt.toNat hle
    have hgrows : start < (Page.ofStart (Text.words content).length
        (asks i).size.toInt.toNat start).stop := Page.lt_stop _ (by omega)
    have hrest := ih hnext (Nat.le_of_lt hlt)
    rw [List.length_cons]
    omega

/-- With pages of one size, the requests are as many as pages of that size are needed. -/
theorem Walk.length_eq {size : Nat} (hpos : 0 < size) (hsame : ∀ i, (asks i).size.toInt = size)
    (h : Walk content asks i token pages)
    (hstart : Page.startOf (Text.words content).length token = .ok start)
    (hlt : start < (Text.words content).length) :
    pages.length = ((Text.words content).length - start + size - 1) / size := by
  have hstop (i start : Nat) :
      (Page.ofStart (Text.words content).length (asks i).size.toInt.toNat start).stop =
        min (start + size) (Text.words content).length := by
    simp only [Page.ofStart, hsame i, Int.toNat_natCast, if_neg (Nat.ne_of_gt hpos)]
  induction h generalizing start with
  | @last i token p hpage hlast =>
    obtain rfl := Except.ok.inj
      (hpage.symm.trans ((asks i).page_result content token start (hsizes i) hstart))
    have hend := Page.nextToken_eq_empty_iff.mp hlast
    rw [hstop] at hend
    symm
    rw [List.length_singleton, Nat.div_eq_iff hpos]
    omega
  | @more i token p ps hpage hmore _ ih =>
    obtain rfl := Except.ok.inj
      (hpage.symm.trans ((asks i).page_result content token start (hsizes i) hstart))
    obtain ⟨hbefore, hnext⟩ := Page.startOf_nextToken hmore
    have hrest := ih hnext hbefore
    rw [hstop] at hbefore hrest
    have hstep : min (start + size) (Text.words content).length = start + size := by omega
    rw [hstep] at hbefore hrest
    calc
      (_ :: ps).length = ((Text.words content).length - (start + size) + size - 1) / size + 1 := by
        rw [List.length_cons, hrest]
      _ = ((Text.words content).length - (start + size) + size - 1 + size) / size :=
        (Nat.add_div_right _ hpos).symm
      _ = ((Text.words content).length - start + size - 1) / size := by
        congr 1
        omega

end

/-- A client that follows the tokens comes to the end, whatever sizes it asks for, and the pages one
behind the other are the stream of `Expand`. -/
theorem pages_agree_with_stream (content : String) (asks : Nat → Ask)
    (hsizes : ∀ i, 0 ≤ (asks i).size.toInt) :
    ∃ pages, Walk content asks 0 "" pages ∧
      (∀ pages', Walk content asks 0 "" pages' → pages' = pages) ∧
      pages.length ≤ max 1 (Text.words content).length ∧
      (∀ size : Nat, 0 < size → (∀ i, (asks i).size.toInt = size) → Text.words content ≠ [] →
        pages.length = ((Text.words content).length + size - 1) / size) ∧
      ∀ metadata severity error, pages.flatMap (·.responses) =
        (expand metadata none ⟨content, severity, error⟩).1 := by
  have hstart : Page.startOf (Text.words content).length "" = .ok 0 := rfl
  have hle : 0 ≤ (Text.words content).length := Nat.zero_le _
  obtain ⟨pages, hwalk⟩ := exists_walk (i := 0) hsizes hstart hle
  refine ⟨pages, hwalk, hwalk.unique, hwalk.length_le hsizes hstart hle,
    fun size hpos hsame hwords => ?_, fun metadata severity error => ?_⟩
  · exact hwalk.length_eq hsizes hpos hsame hstart (List.length_pos_iff.mpr hwords)
  · exact hwalk.responses hsizes hstart hle

/-- Three words in pages of two and of any size, once by the older request. -/
theorem pages_agree_with_stream_three_words :
    ∃ asks : Nat → Ask, (∀ i, 0 ≤ (asks i).size.toInt) ∧ ∃ pages,
      Walk "a b c" asks 0 "" pages ∧ pages.flatMap (·.responses) =
        [.ofContent "a", .ofContent "b", .ofContent "c"] := by
  let asks : Nat → Ask := fun i => ⟨.empty, if i = 0 then 2 else 0, i ≠ 0⟩
  have hsizes (i : Nat) : 0 ≤ (asks i).size.toInt := by
    by_cases h : i = 0
    · simp [asks, h]
    · simp [asks, h]
  obtain ⟨pages, hwalk, -, -, -, hstream⟩ := pages_agree_with_stream "a b c" asks hsizes
  exact ⟨asks, hsizes, pages, hwalk, (hstream .empty .unnecessary none).trans (by decide +kernel)⟩

end Service
end EchoServer
