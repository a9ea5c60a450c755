import EchoServer.Proofs.Json.Respelling
import EchoServer.Proofs.Message.RoundTrip

namespace EchoServer

open Json

theorem lookup_optionalMember (key name : String) (o : Option Json) :
    (optionalMember name o).lookup key = if key = name then o else none := by
  by_cases hkey : key = name
  · cases o <;> simp [optionalMember, hkey]
  · cases o <;> simp [optionalMember, List.lookup_cons, beq_eq_false_iff_ne.mpr hkey, hkey]

section
variable {fields : List Field} {spelled : List (String × Json)} {name : String}

/-- A text that may be left out if it is empty. -/
theorem tolerates_text {s : String} (hfield : ⟨name, .default (.string ""), .exact⟩ ∈ fields)
    (hgiven : spelled.lookup name = some (.string s)) :
    (Record.field name Decoder.string (.default "")).Tolerates fields spelled s :=
  tolerates_default hfield (by rw [hgiven]; rfl) (tolerates_exact (readsBack_string s))
    (tolerates_exact (readsBack_string "")) rfl

/-- A 32-bit integer that may be left out if it is zero. -/
theorem tolerates_int32 {n : Int32} (hfield : ⟨name, .default (.int32 0), .exact⟩ ∈ fields)
    (hgiven : spelled.lookup name = some (.int32 n)) :
    (Record.field name Decoder.int32 (.default 0)).Tolerates fields spelled n :=
  tolerates_default hfield (by rw [hgiven]; rfl) (tolerates_exact (readsBack_int32 n))
    (tolerates_exact (readsBack_int32 0)) rfl

/-- A message that may be left out if there is none. -/
theorem tolerates_message {α : Type} {item : Decoder α} {spell : α → Json} {inner : List Field}
    {o : Option α} (hfield : ⟨name, .optional, .object inner⟩ ∈ fields)
    (hgiven : spelled.lookup name = o.map spell)
    (h : ∀ a, o = some a → item.Tolerates (.object inner) (spell a) a) :
    (Record.field name (Decoder.optional item) (.default none)).Tolerates fields spelled o := by
  refine tolerates_optional hfield rfl hgiven fun a ha => ⟨?_, h a ha⟩
  rintro _ ⟨-, ns, -, -, -, rfl, -⟩
  exact object_ne_null ns

end

def Detail.fields : List Field :=
  [⟨"type_url", .required, .exact⟩, ⟨"value", .default .null, .reordered⟩]

def Status.fields : List Field :=
  [⟨"code", .required, .exact⟩, ⟨"message", .default (.string ""), .exact⟩,
    ⟨"details", .default (.array []), .list (.object Detail.fields)⟩]

theorem Detail.tolerates (d : Detail) (h : d.canonical = d) :
    (Detail.record.decoder "Detail").Tolerates (.object Detail.fields) d.toJson d := by
  have hvalue : d.value.canonical = d.value := congrArg Detail.value h
  refine tolerates_decoder "Detail" (by decide) (tolerates_map _ (a := (d.typeUrl, d.value))
    (tolerates_both ?_ ?_))
  · exact tolerates_required (by simp [fields]) rfl (tolerates_exact (readsBack_string d.typeUrl))
  · exact tolerates_default (by simp [fields]) rfl (tolerates_json hvalue) (tolerates_json rfl) rfl

theorem Status.tolerates (s : Status) (h : s.canonical = s) :
    Status.decoder.Tolerates (.object Status.fields) s.toJson s := by
  have hdetails (ds : List Detail) (hds : ∀ d ∈ ds, d ∈ s.details) :=
    tolerates_list Detail.toJson ds fun d hd =>
      d.tolerates (Status.detail_canonical h d (hds d hd))
  refine tolerates_decoder "Status" (by decide) (tolerates_map _
    (a := ((s.code, s.message), s.details)) (tolerates_both (tolerates_both ?_ ?_) ?_))
  · exact tolerates_required (by simp [fields]) rfl (tolerates_exact s.code.readsBack)
  · exact tolerates_text (by simp [fields]) rfl
  · refine tolerates_default (by simp [fields]) ?_ (hdetails s.details fun d hd => hd)
      (hdetails [] (by simp)) ⟨[], [], rfl, rfl, .nil⟩
    cases hs : s.details <;> simp [List.lookup_cons]

/-- A status that may be left out if there is none. -/
theorem tolerates_error {fields : List Field} {spelled : List (String × Json)}
    {error : Option Status} (hfield : ⟨"error", .optional, .object Status.fields⟩ ∈ fields)
    (hgiven : spelled.lookup "error" = error.map Status.toJson)
    (h : ∀ s, error = some s → s.canonical = s) :
    (Record.field "error" (Decoder.optional Status.decoder) (.default none)).Tolerates fields
      spelled error :=
  tolerates_message hfield hgiven fun s hs => s.tolerates (h s hs)

def EchoRequest.fields : List Field :=
  [⟨"content", .default (.string ""), .exact⟩,
    ⟨"severity", .default (.string "UNNECESSARY"), .exact⟩,
    ⟨"error", .optional, .object Status.fields⟩]

def EchoResponse.fields : List Field :=
  [⟨"content", .default (.string ""), .exact⟩,
    ⟨"severity", .default (.string "UNNECESSARY"), .exact⟩]

def PagedExpandRequest.fields : List Field :=
  [⟨"content", .default (.string ""), .exact⟩, ⟨"page_size", .default (.int32 0), .exact⟩,
    ⟨"page_token", .default (.string ""), .exact⟩]

def PagedExpandLegacyRequest.fields : List Field :=
  [⟨"content", .default (.string ""), .exact⟩, ⟨"max_results", .default (.int32 0), .exact⟩,
    ⟨"page_token", .default (.string ""), .exact⟩]

def PagedExpandResponse.fields : List Field :=
  [⟨"responses", .default (.array []), .list (.object EchoResponse.fields)⟩,
    ⟨"next_page_token", .default (.string ""), .exact⟩]

theorem tolerates_severity {fields : List Field} {spelled : List (String × Json)} {s : Severity}
    (hfield : ⟨"severity", .default (.string "UNNECESSARY"), .exact⟩ ∈ fields)
    (hgiven : spelled.lookup "severity" = some s.toJson) :
    (Record.field "severity" Severity.decoder (.default .unnecessary)).Tolerates fields spelled s :=
  tolerates_default hfield (by rw [hgiven]; rfl) (tolerates_exact s.readsBack)
    (tolerates_exact Severity.unnecessary.readsBack) rfl

theorem EchoRequest.tolerates (r : EchoRequest) (h : ∀ s, r.error = some s → s.canonical = s) :
    EchoRequest.decoder.Tolerates (.object EchoRequest.fields) r.toJson r := by
  refine tolerates_decoder "EchoRequest" (by decide) (tolerates_map _
    (a := ((r.content, r.severity), r.error)) (tolerates_both (tolerates_both ?_ ?_) ?_))
  · exact tolerates_text (by simp [fields]) rfl
  · exact tolerates_severity (by simp [fields]) rfl
  · exact tolerates_error (by simp [fields]) (by simp [List.lookup_cons, lookup_optionalMember]) h

theorem EchoResponse.tolerates (r : EchoResponse) :
    EchoResponse.decoder.Tolerates (.object EchoResponse.fields) r.toJson r := by
  refine tolerates_decoder "EchoResponse" (by decide) (tolerates_map _
    (a := (r.content, r.severity)) (tolerates_both ?_ ?_))
  · exact tolerates_text (by simp [fields]) rfl
  · exact tolerates_severity (by simp [fields]) rfl

theorem PagedExpandRequest.tolerates (r : PagedExpandRequest) :
    PagedExpandRequest.decoder.Tolerates (.object PagedExpandRequest.fields) r.toJson r := by
  refine tolerates_decoder "PagedExpandRequest" (by decide) (tolerates_map _
    (a := ((r.content, r.pageSize), r.pageToken)) (tolerates_both (tolerates_both ?_ ?_) ?_))
  · exact tolerates_text (by simp [fields]) rfl
  · exact tolerates_int32 (by simp [fields]) rfl
  · exact tolerates_text (by simp [fields]) rfl

theorem PagedExpandLegacyRequest.tolerates (r : PagedExpandLegacyRequest) :
    PagedExpandLegacyRequest.decoder.Tolerates (.object PagedExpandLegacyRequest.fields)
      r.toJson r := by
  refine tolerates_decoder "PagedExpandLegacyRequest" (by decide) (tolerates_map _
    (a := ((r.content, r.maxResults), r.pageToken)) (tolerates_both (tolerates_both ?_ ?_) ?_))
  · exact tolerates_text (by simp [fields]) rfl
  · exact tolerates_int32 (by simp [fields]) rfl
  · exact tolerates_text (by simp [fields]) rfl

theorem PagedExpandResponse.tolerates (r : PagedExpandResponse) :
    PagedExpandResponse.decoder.Tolerates (.object PagedExpandResponse.fields) r.toJson r := by
  have hlist (rs : List EchoResponse) :=
    tolerates_list EchoResponse.toJson rs fun e _ => e.tolerates
  refine tolerates_decoder "PagedExpandResponse" (by decide) (tolerates_map _
    (a := (r.responses, r.nextPageToken)) (tolerates_both ?_ ?_))
  · exact tolerates_default (by simp [fields]) rfl (hlist r.responses) (hlist [])
      ⟨[], [], rfl, rfl, .nil⟩
  · exact tolerates_text (by simp [fields]) rfl

def Duration.fields : List Field :=
  [⟨"seconds", .default (.int64 0), .exact⟩, ⟨"nanos", .default (.int32 0), .exact⟩]

def BlockResponse.fields : List Field := [⟨"content", .default (.string ""), .exact⟩]

def BlockRequest.fields : List Field :=
  [⟨"response_delay", .default Duration.zero.toJson, .object Duration.fields⟩,
    ⟨"error", .optional, .object Status.fields⟩,
    ⟨"success", .optional, .object BlockResponse.fields⟩]

def WaitResponse.fields : List Field := [⟨"content", .default (.string ""), .exact⟩]

def WaitRequest.fields : List Field :=
  [⟨"end_time", .optional, .exact⟩, ⟨"ttl", .optional, .object Duration.fields⟩,
    ⟨"error", .optional, .object Status.fields⟩,
    ⟨"success", .optional, .object WaitResponse.fields⟩]

def Operation.metadataFields : List Field := [⟨"end_time", .required, .exact⟩]

/-- The result of an operation keeps its only member; what that holds is spelled freely. -/
def OperationResult.respelling : Respelling :=
  .variant [("error", .object Status.fields), ("response", .object WaitResponse.fields)]

def Operation.fields : List Field :=
  [⟨"name", .required, .exact⟩, ⟨"done", .required, .exact⟩,
    ⟨"metadata", .required, .object Operation.metadataFields⟩,
    ⟨"result", .optional, OperationResult.respelling⟩]

def GetOperationRequest.fields : List Field := [⟨"name", .default (.string ""), .exact⟩]

theorem Duration.tolerates (d : Duration) :
    Duration.decoder.Tolerates (.object Duration.fields) d.toJson d := by
  refine tolerates_decoder "ProtoDuration" (by decide) (tolerates_map _
    (a := (d.seconds, d.nanos)) (tolerates_both ?_ ?_))
  · exact tolerates_default (by simp [fields]) rfl (tolerates_exact (readsBack_int64 d.seconds))
      (tolerates_exact (readsBack_int64 0)) rfl
  · exact tolerates_int32 (by simp [fields]) rfl

theorem BlockResponse.tolerates (r : BlockResponse) :
    BlockResponse.decoder.Tolerates (.object BlockResponse.fields) r.toJson r :=
  tolerates_decoder "BlockResponse" (by decide) (tolerates_map _
    (a := r.content) (tolerates_text (by simp [fields]) rfl))

theorem BlockRequest.tolerates (r : BlockRequest) (h : ∀ s, r.error = some s → s.canonical = s) :
    BlockRequest.decoder.Tolerates (.object BlockRequest.fields) r.toJson r := by
  refine tolerates_decoder "BlockRequest" (by decide) (tolerates_map _
    (a := ((r.responseDelay, r.error), r.success)) (tolerates_both (tolerates_both ?_ ?_) ?_))
  · refine tolerates_default (by simp [fields]) rfl r.responseDelay.tolerates
      Duration.zero.tolerates ?_
    exact ⟨_, _, [[("seconds", .int64 0)], [("nanos", .int32 0)]], [], rfl, rfl,
      .cons (.kept rfl) (.cons (.kept rfl) .nil), by simp, .refl _⟩
  · exact tolerates_error (by simp [fields])
      (by simp [List.lookup_cons, List.lookup_append, lookup_optionalMember]) h
  · exact tolerates_message (by simp [fields])
      (by simp [List.lookup_cons, List.lookup_append, lookup_optionalMember]) fun x _ => x.tolerates

theorem WaitResponse.tolerates (r : WaitResponse) :
    WaitResponse.decoder.Tolerates (.object WaitResponse.fields) r.toJson r :=
  tolerates_decoder "WaitResponse" (by decide) (tolerates_map _
    (a := r.content) (tolerates_text (by simp [fields]) rfl))

theorem WaitRequest.tolerates (r : WaitRequest) (h : ∀ s, r.error = some s → s.canonical = s) :
    WaitRequest.decoder.Tolerates (.object WaitRequest.fields) r.toJson r := by
  refine tolerates_decoder "WaitRequest" (by decide) (tolerates_map _
    (a := (((r.endTime, r.ttl), r.error), r.success))
    (tolerates_both (tolerates_both (tolerates_both ?_ ?_) ?_) ?_))
  · refine tolerates_optional (by simp [fields]) rfl
      (by simp [List.lookup_append, lookup_optionalMember]) fun t _ =>
        ⟨?_, tolerates_exact (readsBack_time t)⟩
    rintro w rfl
    exact string_ne_null _
  · exact tolerates_message (by simp [fields])
      (by simp [List.lookup_append, lookup_optionalMember]) fun d _ => d.tolerates
  · exact tolerates_error (by simp [fields])
      (by simp [List.lookup_append, lookup_optionalMember]) h
  · exact tolerates_message (by simp [fields])
      (by simp [List.lookup_append, lookup_optionalMember]) fun x _ => x.tolerates

theorem Operation.metadata_tolerates (t : Time.Timestamp) :
    (Operation.metadataRecord.decoder "WaitMetadata").Tolerates (.object Operation.metadataFields)
      (.object [("end_time", timeJson t)]) t :=
  tolerates_decoder "WaitMetadata" (by decide)
    (tolerates_required (by simp [metadataFields]) rfl (tolerates_exact (readsBack_time t)))

theorem OperationResult.tolerates (x : OperationResult) (h : x.Stored) :
    OperationResult.decoder.Tolerates OperationResult.respelling x.toJson x := by
  rintro _ ⟨name, content, y, z, hmem, hcontent, hx, rfl⟩ p hp
  obtain ⟨q, hq, -, hfits⟩ := Place.Fits.enter (d := depthMembers [(name, z)]) hp
  have hz : q.Fits z.depth := hfits.of_le (Nat.le_max_left _ _)
  cases x with
  | error s =>
    cases hx
    obtain rfl : content = .object Status.fields := by simpa using hmem
    refine variant_object _ _ p q _ z _ (by decide) hq ?_
    simp [s.tolerates h z hcontent q hz, Except.map]
  | response r =>
    cases hx
    obtain rfl : content = .object WaitResponse.fields := by simpa using hmem
    refine variant_object _ _ p q _ z _ (by decide) hq ?_
    simp [r.tolerates z hcontent q hz, Except.map]

theorem Operation.tolerates (o : Operation) (h : ∀ x, o.result = some x → x.Stored) :
    Operation.decoder.Tolerates (.object Operation.fields) o.toJson o := by
  refine tolerates_decoder "Operation" (by decide) (tolerates_map _
    (a := (((o.name, o.done), o.endTime), o.result))
    (tolerates_both (tolerates_both (tolerates_both ?_ ?_) ?_) ?_))
  · exact tolerates_required (by simp [fields]) rfl (tolerates_exact (readsBack_string o.name))
  · exact tolerates_required (by simp [fields]) rfl (tolerates_exact (readsBack_bool o.done))
  · exact tolerates_required (by simp [fields]) rfl (metadata_tolerates o.endTime)
  · refine tolerates_optional (by simp [fields]) rfl
      (by simp [List.lookup_cons, lookup_optionalMember]) fun x hx => ⟨?_, x.tolerates (h x hx)⟩
    rintro _ ⟨name, content, y, z, -, -, -, rfl⟩
    exact object_ne_null _

theorem GetOperationRequest.tolerates (r : GetOperationRequest) :
    GetOperationRequest.decoder.Tolerates (.object GetOperationRequest.fields) r.toJson r :=
  tolerates_decoder "GetOperationRequest" (by decide) (tolerates_map _
    (a := r.name) (tolerates_text (by simp [fields]) rfl))

end EchoServer
