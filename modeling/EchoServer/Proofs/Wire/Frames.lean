import EchoServer.Proofs.Message.Status
import EchoServer.Wire.Frame

namespace EchoServer

open Json

/-- The frame with its body in canonical order. -/
def ClientFrame.canonical : ClientFrame → ClientFrame
  | .message body => .message body.canonical
  | f => f

/-- The frame with its opaque values in canonical order. -/
def ServerFrame.canonical : ServerFrame → ServerFrame
  | .message body => .message body.canonical
  | .trailers status md => .trailers status.canonical md

/-- The body of a message is read from the only member that is left. -/
theorem variantRecord_body (name : String) (body : Json) :
    Decoder.variantRecord name bodyRecord (.object (Draft.ofMembers [("body", body)]) none) =
      .ok body.canonical :=
  decodeMembers_ofMembers bodyRecord .buffer _ _
    (field_of_present "body" _ _ _ _ body _ (by simp)
      (json_ofJson body .buffer (Place.fits_buffer _)))

theorem ClientFrame.decoder_toJson (f : ClientFrame) (p : Place) (h : p.Fits f.toJson.depth) :
    ClientFrame.decoder p (.ofJson f.toJson) = .ok f.canonical := by
  cases f with
  | call method md =>
    have hmethod := field_of_present "method" Decoder.string .required .buffer
      [("method", .string method), ("metadata", md.toJson)] (.string method) method (by simp) rfl
    have hmd := field_of_present "metadata" Metadata.decoder (.default .empty) .buffer
      [("method", .string method), ("metadata", md.toJson)] md.toJson md (by simp)
      (md.decoder_toJson .buffer (Place.fits_buffer _))
    have hrecord := decodeMembers_ofMembers callRecord .buffer _ _
      (both_ofMembers _ _ .buffer _ _ _ hmethod hmd)
    rw [ClientFrame.decoder, ClientFrame.toJson, tagged_object _ _ _ p "call" _ (by decide)
      (h.of_le (by simp [ClientFrame.toJson, depth, depthMembers])) (by simp)]
    simp [Decoder.variantRecord, hrecord, Except.map, ClientFrame.canonical]
  | message body =>
    rw [ClientFrame.decoder, ClientFrame.toJson, tagged_object _ _ _ p "message" _ (by decide)
      (h.of_le (by simp [ClientFrame.toJson, depth, depthMembers])) (by simp)]
    simp [variantRecord_body, Except.map, ClientFrame.canonical]
  | halfClose =>
    rw [ClientFrame.decoder, ClientFrame.toJson, tagged_object _ _ _ p "half_close" _ (by decide)
      (h.of_le (by simp [ClientFrame.toJson, depth, depthMembers])) (by simp)]
    rfl
  | cancel =>
    rw [ClientFrame.decoder, ClientFrame.toJson, tagged_object _ _ _ p "cancel" _ (by decide)
      (h.of_le (by simp [ClientFrame.toJson, depth, depthMembers])) (by simp)]
    rfl

/-- Trailers are read from the members that spell them; none are left out. -/
theorem ServerFrame.trailersRecord_ofMembers (status : Status) (md : Metadata) :
    trailersRecord.decodeMembers .buffer (Draft.ofMembers
      (("status", status.toJson) :: if md.isEmpty then [] else [("trailers", md.toJson)])) none =
      .ok (status.canonical, md) := by
  have hstatus : ∀ members : List (String × Json), members.filter (·.1 = "status") = [] →
      (Record.field "status" Status.decoder .required).ofMembers .buffer
        (Draft.ofMembers (("status", status.toJson) :: members)) = .ok status.canonical :=
    fun members hnone => field_of_present "status" _ _ _ _ status.toJson _ (by simp [hnone])
      (status.decoder_toJson .buffer (Place.fits_buffer _))
  by_cases he : md.isEmpty
  · have hempty : md = .empty := by
      obtain ⟨entries⟩ := md
      simpa [Metadata.isEmpty, Metadata.empty] using he
    have hmd := field_of_absent "trailers" Metadata.decoder (.default .empty) .buffer
      [("status", status.toJson)] .empty (by simp) rfl
    rw [if_pos he, hempty]
    exact decodeMembers_ofMembers trailersRecord .buffer _ _
      (both_ofMembers _ _ .buffer _ _ _ (hstatus [] rfl) hmd)
  · have hmd := field_of_present "trailers" Metadata.decoder (.default .empty) .buffer
      [("status", status.toJson), ("trailers", md.toJson)] md.toJson md (by simp)
      (md.decoder_toJson .buffer (Place.fits_buffer _))
    rw [if_neg he]
    exact decodeMembers_ofMembers trailersRecord .buffer _ _
      (both_ofMembers _ _ .buffer _ _ _ (hstatus [("trailers", md.toJson)] (by simp)) hmd)

theorem ServerFrame.decoder_toJson (f : ServerFrame) (p : Place) (h : p.Fits f.toJson.depth) :
    ServerFrame.decoder p (.ofJson f.toJson) = .ok f.canonical := by
  cases f with
  | message body =>
    rw [ServerFrame.decoder, ServerFrame.toJson, tagged_object _ _ _ p "message" _ (by decide)
      (h.of_le (by simp [ServerFrame.toJson, depth, depthMembers])) (by simp)]
    simp [variantRecord_body, Except.map, ServerFrame.canonical]
  | trailers status md =>
    have hsplit : ServerFrame.toJson (.trailers status md) = .object (("type", .string "trailers") ::
        ("status", status.toJson) :: if md.isEmpty then [] else [("trailers", md.toJson)]) := rfl
    rw [ServerFrame.decoder, hsplit, tagged_object _ _ _ p "trailers" _ (by decide)
      (h.of_le (by simp [hsplit, depth, depthMembers])) (by
        by_cases he : md.isEmpty <;> simp [he])]
    simp [Decoder.variantRecord, trailersRecord_ofMembers, Except.map, ServerFrame.canonical]

end EchoServer
