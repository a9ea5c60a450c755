import EchoServer.Proofs.Message.RoundTrip
import EchoServer.Proofs.Service.Intake
import EchoServer.Proofs.Text.Words

namespace EchoServer.Service

open Text (Blank IsRun Spaced words joinWords)

/-- What a response is among the requests of a call, when its body is sent back. -/
def sentBack (x : EchoResponse) : Except Status EchoRequest :=
  decodeRequest EchoRequest.decoder (responseBody x.toJson)

section
variable {metadata metadata' : Metadata} {r : EchoRequest}

/-- A response is read as a request that asks for no failure. -/
theorem sentBack_eq (x : EchoResponse) : sentBack x = .ok ⟨x.content, x.severity, none⟩ := by
  let request : EchoRequest := ⟨x.content, x.severity, none⟩
  have hread : EchoRequest.decoder.ofJson request.toJson.canonical = .ok request := by
    apply Json.ofJson_of_readsBack
    exact request.readsBack fun s hs => by cases hs
  have hsame : request.toJson = x.toJson := rfl
  rw [hsame] at hread
  rw [sentBack, decodeRequest, responseBody, hread]

theorem expand_responses : (expand metadata none r).1 = (words r.content).map .ofContent := rfl

theorem collect_expand : collect metadata' ((expand metadata none r).1.map sentBack) =
    .of metadata' (.ok (.ofContent (joinWords (words r.content)))) := by
  let requests : List EchoRequest := (words r.content).map fun word => ⟨word, .unnecessary, none⟩
  have hitems : (expand metadata none r).1.map sentBack = requests.map .ok := by
    rw [expand_responses, List.map_map, List.map_map]
    exact List.map_congr_left fun word _ => sentBack_eq _
  have hharmless : ∀ request ∈ requests, Status.failure? request.error = none := by
    intro request hrequest
    obtain ⟨word, -, rfl⟩ := List.mem_map.mp hrequest
    rfl
  have hcontents : requests.map (·.content) = words r.content := by
    rw [List.map_map]
    exact List.map_id _
  have hkept : (words r.content).filter (· ≠ "") = words r.content := by
    apply List.filter_eq_self.mpr
    intro word hword
    have hne := (Text.isWord_of_mem_words hword).ne_nil
    apply decide_eq_true
    rintro rfl
    exact hne rfl
  rw [hitems, collect_eq, intake_of_requests requests hharmless, hcontents, hkept]
  rfl

theorem expand_joinWords {r' : EchoRequest} (h : r'.content = joinWords (words r.content)) :
    (expand metadata none r').1 = (expand metadata' none r).1 := by
  rw [expand_responses, expand_responses, h,
    Text.words_joinWords _ fun word hword => Text.isWord_of_mem_words hword]

end

/-- The words of a text are its runs of characters other than white space. Sent back from `Expand`
to `Collect` they come out joined by single spaces, and a second time changes nothing. -/
theorem words_are_rejoined (text : String) :
    (∀ ws : List String,
      (∃ gap, Spaced gap (ws.map String.toList) text.toList) ↔ ws = words text) ∧
    (∀ before word behind, words text = before ++ word :: behind ↔
      ∃ front rest, text = front ++ word ++ rest ∧
        IsRun front.toList word.toList rest.toList ∧ words front = before ∧
        words rest = behind) ∧
    (∀ a b gap : String, gap ≠ "" → Blank gap.toList →
      words (a ++ gap ++ b) = words a ++ words b) ∧
    ∀ (metadata metadata' : Metadata) (r r' : EchoRequest), r.content = text →
      collect metadata' ((expand metadata none r).1.map sentBack) =
        .of metadata' (.ok (.ofContent (" ".intercalate (words text)))) ∧
      (r'.content = " ".intercalate (words text) →
        (expand metadata none r').1 = (expand metadata none r).1 ∧
          collect metadata' ((expand metadata none r').1.map sentBack) =
            .of metadata' (.ok (.ofContent r'.content))) := by
  refine ⟨Text.spaced_words_iff text, Text.words_eq_append_cons_iff text, ?_, ?_⟩
  · intro a b gap hne hblank
    exact Text.words_append_blank_append a b hne hblank
  · rintro metadata metadata' r r' rfl
    refine ⟨collect_expand, fun hjoined => ?_⟩
    have hsame : (expand metadata none r').1 = (expand metadata none r).1 :=
      expand_joinWords hjoined
    refine ⟨hsame, ?_⟩
    rw [hsame, collect_expand, hjoined]
    rfl

/-- Two words, with white space of several kinds around them and between. -/
theorem words_are_rejoined_twice :
    collect .empty ((expand .empty none ⟨"\t one\u3000 two\n", .urgent, none⟩).1.map sentBack) =
        .of .empty (.ok (.ofContent "one two")) ∧
      collect .empty ((expand .empty none ⟨"one two", .urgent, none⟩).1.map sentBack) =
        .of .empty (.ok (.ofContent "one two")) ∧
      words ("one" ++ "\u3000 " ++ "two") = words "one" ++ words "two" := by
  obtain ⟨-, -, happart, hrejoin⟩ := words_are_rejoined "\t one\u3000 two\n"
  have hwords : " ".intercalate (words "\t one\u3000 two\n") = "one two" := by decide +kernel
  obtain ⟨hfirst, hagain⟩ := hrejoin .empty .empty ⟨_, .urgent, none⟩ ⟨"one two", .urgent, none⟩ rfl
  rw [hwords] at hfirst hagain
  have hblank : Blank "\u3000 ".toList := by
    intro c hc
    have hchars : c = '\u3000' ∨ c = ' ' := by simpa using hc
    rcases hchars with rfl | rfl
    · rfl
    · rfl
  exact ⟨hfirst, (hagain rfl).2, happart "one" "two" "\u3000 " (by decide) hblank⟩

end EchoServer.Service
