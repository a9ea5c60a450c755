import Mathlib
import EchoServer.Proofs.Message.Respelling
import EchoServer.Proofs.Wire.RoundTrip

namespace EchoServer

open Json

/-- The fields of a client frame, by its kind. -/
def ClientFrame.fieldsOf : String → List Field
  | "call" => [⟨"method", .required, .exact⟩, ⟨"metadata", .default (.array []), .exact⟩]
  | "message" => [⟨"body", .required, .reordered⟩]
  | _ => []

/-- The fields of a server frame, by its kind. -/
def ServerFrame.fieldsOf : String → List Field
  | "message" => [⟨"body", .required, .reordered⟩]
  | "trailers" => [⟨"status", .required, .object Status.fields⟩,
      ⟨"trailers", .default (.array []), .exact⟩]
  | _ => []

/-- The content of a variant is read where it was buffered, whatever its nesting. -/
theorem variantRecord_of_tolerates {α : Type} {r : Record α} {fields : List Field}
    {spelled members : List (String × Json)} {a : α} (name : String)
    (h : r.Tolerates fields spelled a)
    (hspells : ∀ f ∈ fields,
      f.Spells (spelled.lookup f.name) (members.filter (·.1 = f.name))) :
    Decoder.variantRecord name r (.object (Draft.ofMembers members) none) = .ok a :=
  decodeMembers_ofMembers r .buffer members a
    (h .buffer members (Place.fits_buffer _) hspells)

theorem tolerates_metadata {fields : List Field} {spelled : List (String × Json)} {name : String}
    {md : Metadata} (hfield : ⟨name, .default (.array []), .exact⟩ ∈ fields)
    (hgiven : (spelled.lookup name).getD (.array []) = md.toJson) :
    (Record.field name Metadata.decoder (.default .empty)).Tolerates fields spelled md :=
  tolerates_default hfield hgiven (tolerates_exact md.readsBack)
    (tolerates_exact Metadata.empty.readsBack) rfl

theorem tolerates_body {fields : List Field} {spelled : List (String × Json)} {body : Json}
    (hfield : ⟨"body", .required, .reordered⟩ ∈ fields)
    (hgiven : spelled.lookup "body" = some body) (h : body.canonical = body) :
    bodyRecord.Tolerates fields spelled body :=
  tolerates_required hfield hgiven (tolerates_json h)

theorem ClientFrame.tolerates (f : ClientFrame) (h : f.canonical = f) :
    ClientFrame.decoder.Tolerates (.tagged ClientFrame.fieldsOf) f.toJson f := by
  cases f with
  | call method md =>
    have hrecord : callRecord.Tolerates (fieldsOf "call")
        [("method", .string method), ("metadata", md.toJson)] (method, md) :=
      tolerates_both
        (tolerates_required (by simp [fieldsOf]) rfl (tolerates_exact (readsBack_string method)))
        (tolerates_metadata (by simp [fieldsOf]) rfl)
    refine tolerates_tagged (by decide) (by decide) fun members hspells => ?_
    simp [variantRecord_of_tolerates "ClientFrame::Call" hrecord hspells, Except.map]
  | message body =>
    have hbody : body.canonical = body := ClientFrame.message.inj h
    have hrecord : bodyRecord.Tolerates (fieldsOf "message") [("body", body)] body :=
      tolerates_body (by simp [fieldsOf]) rfl hbody
    refine tolerates_tagged (by decide) (by decide) fun members hspells => ?_
    simp [variantRecord_of_tolerates "ClientFrame::Message" hrecord hspells, Except.map]
  | halfClose => exact tolerates_tagged (by decide) (by decide) fun members _ => rfl
  | cancel => exact tolerates_tagged (by decide) (by decide) fun members _ => rfl

theorem ServerFrame.tolerates (f : ServerFrame) (h : f.canonical = f) :
    ServerFrame.decoder.Tolerates (.tagged ServerFrame.fieldsOf) f.toJson f := by
  cases f with
  | message body =>
    have hbody : body.canonical = body := ServerFrame.message.inj h
    have hrecord : bodyRecord.Tolerates (fieldsOf "message") [("body", body)] body :=
      tolerates_body (by simp [fieldsOf]) rfl hbody
    refine tolerates_tagged (by decide) (by decide) fun members hspells => ?_
    simp [variantRecord_of_tolerates "ServerFrame::Message" hrecord hspells, Except.map]
  | trailers status md =>
    have hstatus : status.canonical = status := (ServerFrame.trailers.inj h).1
    have hrecord : trailersRecord.Tolerates (fieldsOf "trailers")
        (("status", status.toJson) :: if md.isEmpty then [] else [("trailers", md.toJson)])
        (status, md) := by
      refine tolerates_both
        (tolerates_required (by simp [fieldsOf]) rfl (status.tolerates hstatus))
        (tolerates_metadata (by simp [fieldsOf]) ?_)
      -- trailers that are left out are empty
      obtain ⟨entries⟩ := md
      cases entries <;> simp [Metadata.isEmpty, Metadata.toJson, List.lookup_cons]
    refine tolerates_tagged (by decide) (by decide) fun members hspells => ?_
    simp [variantRecord_of_tolerates "ServerFrame::Trailers" hrecord hspells, Except.map]

/-- Frames and messages are read the same with their members in any order and others among them, and
without members that say nothing. -/
theorem respellings_are_read :
    Tolerant ClientFrame.decoder ClientFrame.toJson (.tagged ClientFrame.fieldsOf)
      (fun f => f.canonical = f) ∧
    Tolerant ServerFrame.decoder ServerFrame.toJson (.tagged ServerFrame.fieldsOf)
      (fun f => f.canonical = f) ∧
    Tolerant EchoRequest.decoder EchoRequest.toJson (.object EchoRequest.fields)
      (fun r => ∀ s, r.error = some s → s.canonical = s) ∧
    Tolerant EchoResponse.decoder EchoResponse.toJson (.object EchoResponse.fields)
      (fun _ => True) ∧
    Tolerant PagedExpandRequest.decoder PagedExpandRequest.toJson
      (.object PagedExpandRequest.fields) (fun _ => True) ∧
    Tolerant PagedExpandLegacyRequest.decoder PagedExpandLegacyRequest.toJson
      (.object PagedExpandLegacyRequest.fields) (fun _ => True) ∧
    Tolerant PagedExpandResponse.decoder PagedExpandResponse.toJson
      (.object PagedExpandResponse.fields) (fun _ => True) ∧
    Tolerant Duration.decoder Duration.toJson (.object Duration.fields) (fun _ => True) ∧
    Tolerant BlockRequest.decoder BlockRequest.toJson (.object BlockRequest.fields)
      (fun r => ∀ s, r.error = some s → s.canonical = s) ∧
    Tolerant BlockResponse.decoder BlockResponse.toJson (.object BlockResponse.fields)
      (fun _ => True) ∧
    Tolerant WaitRequest.decoder WaitRequest.toJson (.object WaitRequest.fields)
      (fun r => ∀ s, r.error = some s → s.canonical = s) ∧
    Tolerant WaitResponse.decoder WaitResponse.toJson (.object WaitResponse.fields)
      (fun _ => True) ∧
    Tolerant (Operation.metadataRecord.decoder "WaitMetadata")
      (fun t => .object [("end_time", timeJson t)]) (.object Operation.metadataFields)
      (fun _ => True) ∧
    Tolerant OperationResult.decoder OperationResult.toJson OperationResult.respelling
      OperationResult.Stored ∧
    Tolerant Operation.decoder Operation.toJson (.object Operation.fields)
      (fun o => ∀ x, o.result = some x → x.Stored) ∧
    Tolerant GetOperationRequest.decoder GetOperationRequest.toJson
      (.object GetOperationRequest.fields) (fun _ => True) ∧
    Tolerant Status.decoder Status.toJson (.object Status.fields) (fun s => s.canonical = s) ∧
    Tolerant (Detail.record.decoder "Detail") Detail.toJson (.object Detail.fields)
      (fun d => d.canonical = d) := by
  exact ⟨.of_tolerates ClientFrame.tolerates, .of_tolerates ServerFrame.tolerates,
    .of_tolerates EchoRequest.tolerates, .of_tolerates fun r _ => r.tolerates,
    .of_tolerates fun r _ => r.tolerates, .of_tolerates fun r _ => r.tolerates,
    .of_tolerates fun r _ => r.tolerates, .of_tolerates fun d _ => d.tolerates,
    .of_tolerates BlockRequest.tolerates, .of_tolerates fun r _ => r.tolerates,
    .of_tolerates WaitRequest.tolerates, .of_tolerates fun r _ => r.tolerates,
    .of_tolerates fun t _ => Operation.metadata_tolerates t,
    .of_tolerates OperationResult.tolerates, .of_tolerates Operation.tolerates,
    .of_tolerates fun r _ => r.tolerates, .of_tolerates Status.tolerates,
    .of_tolerates Detail.tolerates⟩

/-- Trailers that end a call which found nothing. -/
def missingTrailers : ServerFrame :=
  .trailers ⟨.notFound, "", [⟨"t", .object [("a", .bool true), ("b", .null)]⟩]⟩ .empty

/-- The same trailers as a peer may spell them: their kind comes last, no message is left, and at
every level there is a member that no one asks for. -/
def rearrangedTrailers : Json :=
  .object [("note", .object []), ("trailers", .array []),
    ("status", .object [("hint", .array [.string "x"]),
      ("details", .array [.object [("extra", .int64 7),
        ("value", .object [("b", .null), ("a", .bool true)]), ("type_url", .string "t")]]),
      ("code", .int32 5)]),
    ("type", .string "trailers")]

/-- A text of `rearrangedTrailers`, with space and an escape. -/
def rearrangedText : List UInt8 :=
  utf8 ("\x7b\"note\":\x7b \x7d, \"trailers\" : [],\n" ++
    "\"status\":\x7b\"hint\":[\"x\"],\"details\":[\x7b\"extra\":7, \"value\":" ++
    "\x7b\"b\":null,\"\\u0061\":true\x7d,\"type_url\":\"t\"\x7d],\"code\":5\x7d," ++
    "\t\"type\":\"trailers\"\x7d").toList

/-- A request to wait for a minute. -/
def minuteWait : WaitRequest := ⟨none, some ⟨60, 0⟩, none, none⟩

/-- The same request, with null for a status, without nanoseconds, and with other members. -/
def rearrangedWait : Json :=
  .object [("more", .bool false), ("error", .null),
    ("ttl", .object [("days", .int64 0), ("seconds", .int64 60)])]

theorem respellings_are_read_rearranged :
    ServerFrame.decoder.ofText rearrangedText = .ok missingTrailers ∧
    WaitRequest.decoder.ofText rearrangedWait.print = .ok minuteWait := by
  obtain ⟨-, hserver, -, -, -, -, -, -, -, -, hwait, -⟩ := respellings_are_read
  have hdetail : Respelling.object Detail.fields
      (Detail.toJson ⟨"t", .object [("a", .bool true), ("b", .null)]⟩)
      (.object [("extra", .int64 7), ("value", .object [("b", .null), ("a", .bool true)]),
        ("type_url", .string "t")]) :=
    ⟨_, _, [[("type_url", .string "t")], [("value", .object [("b", .null), ("a", .bool true)])]],
      [("extra", .int64 7)], rfl, rfl, .cons (.kept rfl) (.cons (.kept rfl) .nil), by decide,
      (List.reverse_perm _).symm⟩
  have hframe : Respelling.tagged ServerFrame.fieldsOf missingTrailers.toJson
      rearrangedTrailers := by
    refine ⟨"trailers", _, rfl, _, _, [[("type", .string "trailers")], [("status", _)],
      [("trailers", .array [])]], [("note", .object [])], rfl, rfl, .cons (.kept rfl)
      (.cons (.kept ?_) (.cons (.added rfl rfl) .nil)), by decide, (List.reverse_perm _).symm⟩
    exact ⟨_, _, [[("code", .int32 5)], [], [("details", _)]], [("hint", .array [.string "x"])],
      rfl, rfl, .cons (.kept rfl) (.cons (.dropped rfl) (.cons (.kept ⟨_, _, rfl, rfl,
        .cons hdetail .nil⟩) .nil)), by decide, (List.reverse_perm _).symm⟩
  have hrequest : Respelling.object WaitRequest.fields minuteWait.toJson rearrangedWait := by
    refine ⟨_, _, [[], [("ttl", _)], [("error", .null)], []], [("more", .bool false)], rfl, rfl,
      .cons .absent (.cons (.kept ?_) (.cons (.null rfl) (.cons .absent .nil))), by decide,
      (List.reverse_perm _).symm⟩
    exact ⟨_, _, [[("seconds", .int64 60)], []], [("days", .int64 0)], rfl, rfl,
      .cons (.kept rfl) (.cons (.dropped rfl) .nil), by decide, (List.reverse_perm _).symm⟩
  have htext : readDocument rearrangedText = ⟨.ofJson rearrangedTrailers, false⟩ := by cbv
  have hints : rearrangedWait.IntegersOnly := by
    simp [IntegersOnly, rearrangedWait, numbers, numbersMembers, int64]
  exact ⟨((hserver _ _ rfl hframe).2 (by decide)).1 _ htext,
    ((hwait _ _ (by rintro s ⟨⟩) hrequest).2 (by decide)).2 hints⟩

/-- An operation that has ended with a response. -/
def endedOperation : Operation :=
  { name := "n", done := true, endTime := ⟨86400, 250000000, by decide, by decide, by decide⟩,
    result := some (.response ⟨"x"⟩) }

/-- The same operation, with a member that no one asks for in the result. -/
def annotatedOperation : Json :=
  .object [("name", .string "n"), ("done", .bool true),
    ("metadata", .object [("end_time", .string "1970-01-02T00:00:00.250Z")]),
    ("result", .object [("response", .object [("content", .string "x")]), ("note", .int64 1)])]

/-- The result of an operation is no object like the others: with another member in it, the
operation is not read. -/
theorem result_takes_no_other_member :
    Respelling.object [⟨"name", .required, .exact⟩, ⟨"done", .required, .exact⟩,
        ⟨"metadata", .required, .object Operation.metadataFields⟩,
        ⟨"result", .optional, .object [⟨"error", .optional, .object Status.fields⟩,
          ⟨"response", .optional, .object WaitResponse.fields⟩]⟩]
      endedOperation.toJson annotatedOperation ∧
    annotatedOperation.depth < 128 ∧ annotatedOperation.IntegersOnly ∧
    Operation.decoder.ofText endedOperation.toJson.print = .ok endedOperation ∧
    Operation.decoder.ofText annotatedOperation.print = .error (.notJson .expectedValue) := by
  have hmetadata : Respelling.object Operation.metadataFields
      (.object [("end_time", timeJson endedOperation.endTime)])
      (.object [("end_time", .string "1970-01-02T00:00:00.250Z")]) :=
    ⟨_, _, [[("end_time", _)]], [], rfl, rfl, .cons (.kept rfl) .nil, by decide, .refl _⟩
  have hresponse : Respelling.object WaitResponse.fields (.object [("content", .string "x")])
      (.object [("content", .string "x")]) :=
    ⟨_, _, [[("content", .string "x")]], [], rfl, rfl, .cons (.kept rfl) .nil, by decide, .refl _⟩
  have hresult : Respelling.object [⟨"error", .optional, .object Status.fields⟩,
        ⟨"response", .optional, .object WaitResponse.fields⟩]
      (.object [("response", .object [("content", .string "x")])])
      (.object [("response", .object [("content", .string "x")]), ("note", .int64 1)]) :=
    ⟨_, _, [[], [("response", _)]], [("note", .int64 1)], rfl, rfl,
      .cons .absent (.cons (.kept hresponse) .nil), by decide, .refl _⟩
  have hints : annotatedOperation.IntegersOnly := by
    simp [IntegersOnly, annotatedOperation, numbers, numbersMembers, int64]
  refine ⟨⟨_, _, [[("name", _)], [("done", _)], [("metadata", _)], [("result", _)]], [], rfl, rfl,
    .cons (.kept rfl) (.cons (.kept rfl) (.cons (.kept hmetadata) (.cons (.kept hresult) .nil))),
    by decide, .refl _⟩, by decide, hints, ?_, ?_⟩
  · rw [ofText_print]
    rfl
  · rw [ofText_print, reread_of_integersOnly _ hints]
    rfl

end EchoServer
