import EchoServer.Proofs.Json.Codec
import EchoServer.Proofs.Message.Request
import EchoServer.Proofs.Time.Rfc3339

namespace EchoServer

open Json

theorem Code.readsBack (c : Code) : Code.decoder.ReadsBack (.int32 c.toInt32) c :=
  readsBack_leaf rfl fun p _ => c.decoder_toInt32 p

theorem Detail.readsBack (d : Detail) (h : d.canonical = d) :
    (Detail.record.decoder "Detail").ReadsBack d.toJson d := by
  have hvalue : d.value.canonical = d.value := congrArg Detail.value h
  have hurl := readsBack_field "type_url" .required (readsBack_string d.typeUrl)
  have hjson := readsBack_field "value" (.default .null) (readsBack_json hvalue)
  exact readsBack_decoder "Detail" (readsBack_map _ (readsBack_both hurl hjson (by decide)))

theorem Status.detail_canonical {s : Status} (h : s.canonical = s) :
    ∀ d ∈ s.details, d.canonical = d := by
  have hmap : s.details.map Detail.canonical = s.details := congrArg Status.details h
  exact List.map_inj_left.mp (hmap.trans (List.map_id _).symm)

/-- Details are left out if there are none, which is what a status has if nothing is said. -/
theorem Status.readsBack (s : Status) (h : s.canonical = s) :
    Status.decoder.ReadsBack s.toJson s := by
  have hdetails : (Record.field "details" (Decoder.list (Detail.record.decoder "Detail"))
      (.default [])).ReadsBack
      (if s.details.isEmpty then [] else [("details", .array (s.details.map Detail.toJson))])
      s.details := by
    cases hs : s.details with
    | nil => exact readsBack_absent "details" rfl
    | cons d ds =>
      refine readsBack_field "details" _ (readsBack_list _ fun e he => ?_)
      exact e.readsBack (Status.detail_canonical h e (hs ▸ he))
  have hcode := readsBack_field "code" .required s.code.readsBack
  have hmessage := readsBack_field "message" (.default "") (readsBack_string s.message)
  exact readsBack_decoder "Status" (readsBack_map _ (readsBack_both (readsBack_both hcode hmessage
    (by decide)) hdetails (by decide)))

theorem Metadata.readsBack (m : Metadata) : Metadata.decoder.ReadsBack m.toJson m := by
  have hpairs : (Decoder.list (Decoder.pair Decoder.string Decoder.string)).ReadsBack m.toJson
      m.entries :=
    readsBack_list _ fun e _ => readsBack_pair (readsBack_string e.1) (readsBack_string e.2)
  intro p hp
  obtain ⟨hwritten, hordered⟩ := hpairs p hp
  rw [Metadata.decoder, hwritten, Metadata.decoder, hordered]
  exact ⟨rfl, rfl⟩

/-- An error of a message, left out if there is none. -/
theorem readsBack_error (error : Option Status) (h : ∀ s, error = some s → s.canonical = s) :
    (Record.field "error" (Decoder.optional Status.decoder) (.default none)).ReadsBack
      (optionalMember "error" (error.map Status.toJson)) error :=
  readsBack_optionalMember "error" (.default none) error rfl fun s hs =>
    ⟨object_ne_null _, s.readsBack (h s hs)⟩

theorem Severity.readsBack (s : Severity) : Severity.decoder.ReadsBack s.toJson s :=
  readsBack_leaf rfl fun p _ => by cases s <;> rfl

theorem EchoRequest.readsBack (r : EchoRequest) (h : ∀ s, r.error = some s → s.canonical = s) :
    EchoRequest.decoder.ReadsBack r.toJson r := by
  have hcontent := readsBack_field "content" (.default "") (readsBack_string r.content)
  have hseverity := readsBack_field "severity" (.default .unnecessary) r.severity.readsBack
  have herror := readsBack_error r.error h
  exact readsBack_decoder "EchoRequest" (readsBack_map _ (readsBack_both (readsBack_both hcontent
    hseverity (by decide)) herror (by decide)))

theorem EchoResponse.readsBack (r : EchoResponse) : EchoResponse.decoder.ReadsBack r.toJson r := by
  have hcontent := readsBack_field "content" (.default "") (readsBack_string r.content)
  have hseverity := readsBack_field "severity" (.default .unnecessary) r.severity.readsBack
  exact readsBack_decoder "EchoResponse" (readsBack_map _ (readsBack_both hcontent hseverity
    (by decide)))

theorem PagedExpandRequest.readsBack (r : PagedExpandRequest) :
    PagedExpandRequest.decoder.ReadsBack r.toJson r := by
  have hcontent := readsBack_field "content" (.default "") (readsBack_string r.content)
  have hsize := readsBack_field "page_size" (.default 0) (readsBack_int32 r.pageSize)
  have htoken := readsBack_field "page_token" (.default "") (readsBack_string r.pageToken)
  exact readsBack_decoder "PagedExpandRequest" (readsBack_map _ (readsBack_both
    (readsBack_both hcontent hsize (by decide)) htoken (by decide)))

theorem PagedExpandLegacyRequest.readsBack (r : PagedExpandLegacyRequest) :
    PagedExpandLegacyRequest.decoder.ReadsBack r.toJson r := by
  have hcontent := readsBack_field "content" (.default "") (readsBack_string r.content)
  have hsize := readsBack_field "max_results" (.default 0) (readsBack_int32 r.maxResults)
  have htoken := readsBack_field "page_token" (.default "") (readsBack_string r.pageToken)
  exact readsBack_decoder "PagedExpandLegacyRequest" (readsBack_map _ (readsBack_both
    (readsBack_both hcontent hsize (by decide)) htoken (by decide)))

theorem PagedExpandResponse.readsBack (r : PagedExpandResponse) :
    PagedExpandResponse.decoder.ReadsBack r.toJson r := by
  have hlist := readsBack_list r.responses fun e _ => e.readsBack
  have hresponses := readsBack_field "responses" (.default []) hlist
  have htoken := readsBack_field "next_page_token" (.default "") (readsBack_string r.nextPageToken)
  exact readsBack_decoder "PagedExpandResponse" (readsBack_map _ (readsBack_both hresponses htoken
    (by decide)))

theorem Duration.readsBack (d : Duration) : Duration.decoder.ReadsBack d.toJson d := by
  have hseconds := readsBack_field "seconds" (.default 0) (readsBack_int64 d.seconds)
  have hnanos := readsBack_field "nanos" (.default 0) (readsBack_int32 d.nanos)
  exact readsBack_decoder "ProtoDuration" (readsBack_map _ (readsBack_both hseconds hnanos
    (by decide)))

theorem BlockResponse.readsBack (r : BlockResponse) :
    BlockResponse.decoder.ReadsBack r.toJson r :=
  readsBack_decoder "BlockResponse" (readsBack_map _
    (readsBack_field "content" _ (readsBack_string r.content)))

theorem BlockRequest.readsBack (r : BlockRequest) (h : ∀ s, r.error = some s → s.canonical = s) :
    BlockRequest.decoder.ReadsBack r.toJson r := by
  have hdelay := readsBack_field "response_delay" (.default .zero) r.responseDelay.readsBack
  have hsuccess := readsBack_optionalMember "success" (.default none) r.success rfl fun x _ =>
    ⟨object_ne_null _, x.readsBack⟩
  exact readsBack_decoder "BlockRequest" (readsBack_map _ (readsBack_both (readsBack_both hdelay
    (readsBack_error r.error h) (by decide)) hsuccess (by decide)))

theorem WaitResponse.readsBack (r : WaitResponse) : WaitResponse.decoder.ReadsBack r.toJson r :=
  readsBack_decoder "WaitResponse" (readsBack_map _
    (readsBack_field "content" _ (readsBack_string r.content)))

/-- A point in time is read back from its text. -/
theorem readsBack_time (t : Time.Timestamp) :
    Decoder.ReadsBack Decoder.timestamp (timeJson t) t := by
  refine readsBack_leaf rfl fun p _ => ?_
  simp only [timeJson, Draft.ofJson, Decoder.timestamp, String.toList_ofList,
    Time.Rfc3339.read_write]

theorem WaitRequest.readsBack (r : WaitRequest) (h : ∀ s, r.error = some s → s.canonical = s) :
    WaitRequest.decoder.ReadsBack r.toJson r := by
  have hend := readsBack_optionalMember "end_time" (.default none) r.endTime rfl fun t _ =>
    ⟨string_ne_null _, readsBack_time t⟩
  have httl := readsBack_optionalMember "ttl" (.default none) r.ttl rfl fun d _ =>
    ⟨object_ne_null _, d.readsBack⟩
  have hsuccess := readsBack_optionalMember "success" (.default none) r.success rfl fun x _ =>
    ⟨object_ne_null _, x.readsBack⟩
  exact readsBack_decoder "WaitRequest" (readsBack_map _ (readsBack_both (readsBack_both
    (readsBack_both hend httl (by decide)) (readsBack_error r.error h) (by decide)) hsuccess
    (by decide)))

/-- One variant, spelled as an object whose only member has its name. -/
theorem readsBack_variant {α : Type} {variants : List String} {name : String} {v : Json} {a : α}
    (content : String → Place → Option Draft → Except DecodeError α) (hname : name ∈ variants)
    (h : ∀ p : Place, p.Fits v.depth → content name p (some (.ofJson v)) = .ok a ∧
      content name p (some (.ofJson v.canonical)) = .ok a) :
    (Decoder.variant variants content).ReadsBack (.object [(name, v)]) a := by
  intro p hp
  obtain ⟨q, hq, -, hfits⟩ := Place.Fits.enter (d := depthMembers [(name, v)]) hp
  obtain ⟨hwritten, hordered⟩ := h q (hfits.of_le (Nat.le_max_left _ _))
  exact ⟨variant_object variants content p q name v a hname hq hwritten,
    variant_object variants content p q name v.canonical a hname hq hordered⟩

/-- An operation holds no error, or one in canonical order. -/
def OperationResult.Stored : OperationResult → Prop
  | .error s => s.canonical = s
  | .response _ => True

theorem OperationResult.readsBack (x : OperationResult) (h : x.Stored) :
    OperationResult.decoder.ReadsBack x.toJson x := by
  cases x with
  | error s =>
    refine readsBack_variant _ (by decide) fun p hp => ?_
    obtain ⟨hwritten, hordered⟩ := s.readsBack h p hp
    simp only [if_true, hwritten, hordered]
    exact ⟨rfl, rfl⟩
  | response r =>
    refine readsBack_variant _ (by decide) fun p hp => ?_
    obtain ⟨hwritten, hordered⟩ := r.readsBack p hp
    simp [hwritten, hordered, Except.map]

theorem OperationResult.toJson_ne_null (x : OperationResult) : x.toJson ≠ .null := by
  cases x with
  | error s => exact object_ne_null _
  | response r => exact object_ne_null _

theorem Operation.readsBack (o : Operation) (h : ∀ x, o.result = some x → x.Stored) :
    Operation.decoder.ReadsBack o.toJson o := by
  have hname := readsBack_field "name" .required (readsBack_string o.name)
  have hdone := readsBack_field "done" .required (readsBack_bool o.done)
  have htime := readsBack_field "end_time" .required (readsBack_time o.endTime)
  have hmetadata := readsBack_field "metadata" .required (readsBack_decoder "WaitMetadata" htime)
  have hresult := readsBack_optionalMember "result" ⟨some none, none⟩ o.result rfl
    fun x hx => ⟨x.toJson_ne_null, x.readsBack (h x hx)⟩
  exact readsBack_decoder "Operation" (readsBack_map _ (readsBack_both (readsBack_both
    (readsBack_both hname hdone (by decide)) hmetadata (by decide)) hresult (by decide)))

theorem GetOperationRequest.readsBack (r : GetOperationRequest) :
    GetOperationRequest.decoder.ReadsBack r.toJson r :=
  readsBack_decoder "GetOperationRequest" (readsBack_map _
    (readsBack_field "name" _ (readsBack_string r.name)))

/-- What a decoder of variants gives is the content of one of them. -/
theorem exists_content_of_variant {α : Type} {variants : List String}
    {content : String → Place → Option Draft → Except DecodeError α} {p : Place} {d : Draft} {a : α}
    (h : Decoder.variant variants content p d = .ok a) :
    ∃ name q c, content name q c = .ok a := by
  unfold Decoder.variant at h
  split at h
  · obtain ⟨name, -, hcontent⟩ := exists_of_bind_ok h
    exact ⟨name, p, none, hcontent⟩
  · obtain ⟨q, -, h⟩ := exists_of_bind_ok h
    split at h
    · split at h
      · split at h <;> cases h
      · obtain ⟨name, -, h⟩ := exists_of_bind_ok h
        obtain ⟨b, hcontent, h⟩ := exists_of_bind_ok h
        obtain ⟨-, -, h⟩ := exists_of_bind_ok h
        obtain rfl := Except.ok.inj h
        exact ⟨name, q, _, hcontent⟩
    · split at h
      · obtain ⟨name, -, hcontent⟩ := exists_of_bind_ok h
        exact ⟨name, q, _, hcontent⟩
      · cases h
  · split at h
    · split at h <;> cases h
    · cases h

theorem Status.canonical_of_decoder {p : Place} {d : Draft} {s : Status}
    (h : Status.decoder p d = .ok s) : s.canonical = s :=
  (Status.decoder_gives d.depth p d s (Nat.le_refl _) h).canonical

theorem OperationResult.stored_of_decoder {p : Place} {d : Draft} {x : OperationResult}
    (h : OperationResult.decoder p d = .ok x) : x.Stored := by
  obtain ⟨name, q, c, hcontent⟩ := exists_content_of_variant h
  split at hcontent
  · cases hcontent
  · split at hcontent
    · obtain ⟨s, hs, rfl⟩ := exists_of_map_ok hcontent
      exact Status.canonical_of_decoder hs
    · obtain ⟨r, -, rfl⟩ := exists_of_map_ok hcontent
      trivial

theorem Operation.decoder_gives : Decoder.Gives Operation.decoder fun _ o =>
    ∀ x, o.result = some x → x.Stored := by
  have hitem : Decoder.Gives OperationResult.decoder fun _ x => x.Stored :=
    fun _ _ _ _ _ h => OperationResult.stored_of_decoder h
  have hresult : (Record.field "result" (Decoder.optional OperationResult.decoder)
      ⟨some none, none⟩).Gives fun _ o => ∀ x, o = some x → x.Stored := by
    refine gives_field _ _ (gives_optional hitem) ?_
    rintro o (h | h) n x rfl <;> cases h
  have hrecord : Operation.record.Gives fun _ o => ∀ x, o.result = some x → x.Stored :=
    gives_map ((gives_both (gives_both (gives_both (gives_any_field _ _ _) (gives_any_field _ _ _))
      (gives_any_field _ _ _)) hresult).imp fun n x hx => hx.2)
  refine (gives_decoder "Operation" hrecord).imp ?_
  rintro n o ⟨m, rfl, h⟩
  exact h

/-- What the decoder has made of anything is read back from the value that it is written as, and
from its texts, unless they are nested too deep or hold a number that is no integer. -/
def RoundTrips {α : Type} (item : Decoder α) (toJson : α → Json) : Prop :=
  ∀ (p : Place) (d : Draft) (a : α), item p d = .ok a →
    item.ofJson (toJson a).canonical = .ok a ∧
    ((toJson a).IntegersOnly → (toJson a).depth < 128 →
      item.ofText (toJson a).print = .ok a ∧ item.ofText (toJson a).canonical.print = .ok a)

theorem RoundTrips.of_readsBack {α : Type} {item : Decoder α} {toJson : α → Json}
    (h : ∀ p d a, item p d = .ok a → item.ReadsBack (toJson a) a) : RoundTrips item toJson := by
  intro p d a ha
  refine ⟨ofJson_of_readsBack (h p d a ha), ?_⟩
  intro hints hdepth
  exact ofText_of_readsBack (h p d a ha) hints hdepth

/-- Every message that was read is read back from what it is written as. -/
theorem messages_round_trip :
    RoundTrips EchoRequest.decoder EchoRequest.toJson ∧
    RoundTrips EchoResponse.decoder EchoResponse.toJson ∧
    RoundTrips PagedExpandRequest.decoder PagedExpandRequest.toJson ∧
    RoundTrips PagedExpandLegacyRequest.decoder PagedExpandLegacyRequest.toJson ∧
    RoundTrips PagedExpandResponse.decoder PagedExpandResponse.toJson ∧
    RoundTrips Duration.decoder Duration.toJson ∧
    RoundTrips BlockRequest.decoder BlockRequest.toJson ∧
    RoundTrips BlockResponse.decoder BlockResponse.toJson ∧
    RoundTrips WaitRequest.decoder WaitRequest.toJson ∧
    RoundTrips WaitResponse.decoder WaitResponse.toJson ∧
    RoundTrips Operation.decoder Operation.toJson ∧
    RoundTrips GetOperationRequest.decoder GetOperationRequest.toJson ∧
    RoundTrips Status.decoder Status.toJson ∧
    RoundTrips (Detail.record.decoder "Detail") Detail.toJson ∧
    RoundTrips Metadata.decoder Metadata.toJson := by
  refine ⟨?_, ?_, ?_, ?_, ?_, ?_, ?_, ?_, ?_, ?_, ?_, ?_, ?_, ?_, ?_⟩ <;>
    refine RoundTrips.of_readsBack ?_ <;> intro p d a ha
  -- who holds a status or a detail was read with it in canonical order
  · exact a.readsBack fun s hs =>
      (EchoRequest.decoder_gives _ p d a (Nat.le_refl _) ha s hs).canonical
  · exact a.readsBack
  · exact a.readsBack
  · exact a.readsBack
  · exact a.readsBack
  · exact a.readsBack
  · exact a.readsBack fun s hs =>
      (BlockRequest.decoder_gives _ p d a (Nat.le_refl _) ha s hs).canonical
  · exact a.readsBack
  · exact a.readsBack fun s hs =>
      (WaitRequest.decoder_gives _ p d a (Nat.le_refl _) ha s hs).canonical
  · exact a.readsBack
  · exact a.readsBack (Operation.decoder_gives _ p d a (Nat.le_refl _) ha)
  · exact a.readsBack
  · exact a.readsBack (Status.canonical_of_decoder ha)
  · exact a.readsBack (Detail.decoder_gives _ p d a (Nat.le_refl _) ha).1
  · exact a.readsBack

/-- A request that ends in the middle of a leap second, with a code that there is not and a detail
without a value. -/
def leapWait : Draft :=
  .object [(.name "end_time", .string "2016-12-31T23:59:60.5Z"),
    (.name "error", .object [(.name "code", .number (.integer ⟨99, by decide⟩)),
      (.name "details", .array [.object [(.name "type_url", .string "t")] none] none)] none)] none

/-- What is read of it. -/
def leapRequest : WaitRequest :=
  { endTime := some ⟨1483228799, 1500000000, by decide, by decide, by decide⟩
    ttl := none
    error := some ⟨.unknown, "", [⟨"t", .null⟩]⟩
    success := none }

theorem messages_round_trip_leap_second :
    WaitRequest.decoder .text leapWait = .ok leapRequest ∧
    WaitRequest.decoder.ofJson leapRequest.toJson.canonical = .ok leapRequest ∧
    WaitRequest.decoder.ofText leapRequest.toJson.print = .ok leapRequest := by
  have hread : WaitRequest.decoder .text leapWait = .ok leapRequest := rfl
  obtain ⟨-, -, -, -, -, -, -, -, hwait, -⟩ := messages_round_trip
  obtain ⟨hvalue, htext⟩ := hwait .text leapWait leapRequest hread
  have hints : leapRequest.toJson.IntegersOnly := by
    simp [IntegersOnly, leapRequest, WaitRequest.toJson, Status.toJson, Detail.toJson, timeJson,
      optionalMember, numbers, numbersMembers, numbersItems, Json.int32]
    decide
  exact ⟨hread, hvalue, (htext hints (by decide +kernel)).1⟩

end EchoServer
