import EchoServer.Proofs.Json.Given
import EchoServer.Proofs.Wire.Reading

namespace EchoServer

open Json
open Wire (Inbox Received)

section
variable {variants : List String} {p : Place}

theorem depth_of_buffered {d : Draft} (ht : p.origin = .text) (hp : 0 < p.depth)
    (h : Decoder.buffered p d = .ok ()) : d.depth < p.depth := by
  obtain ⟨v, hv, -⟩ := exists_of_bind_ok h
  exact depth_lt_of_json d p v ht hp hv

theorem depth_of_bufferedItems {items : List Draft} (ht : p.origin = .text) (hp : 0 < p.depth)
    (h : Decoder.bufferedItems p items = .ok ()) : Draft.depthItems items < p.depth := by
  induction items with
  | nil => exact hp
  | cons d rest ih =>
    rw [Decoder.bufferedItems] at h
    obtain ⟨⟨⟩, hd, hrest⟩ := exists_of_bind_ok h
    have := depth_of_buffered ht hp hd
    have := ih hrest
    rw [Draft.depthItems]
    omega

/-- The members beside a tag were read as they come. -/
theorem depth_of_tagOfMembers {tag tag' : Option String} {others others' : List (Key × Draft)}
    {members : List (Key × Draft)} (ht : p.origin = .text) (hp : 0 < p.depth)
    (hothers : ∀ m ∈ others, m.2.depth < p.depth)
    (h : Decoder.tagOfMembers variants p tag others members = .ok (tag', others')) :
    ∀ m ∈ others', m.2.depth < p.depth := by
  induction members generalizing tag others with
  | nil =>
    obtain ⟨-, rfl⟩ : tag = tag' ∧ others.reverse = others' := by
      simpa [Decoder.tagOfMembers] using h
    intro m hm
    exact hothers m (List.mem_reverse.mp hm)
  | cons m members ih =>
    obtain ⟨k, d⟩ := m
    unfold Decoder.tagOfMembers at h
    obtain ⟨s, -, h⟩ := exists_of_bind_ok h
    split at h
    · split at h
      · cases h
      · obtain ⟨name, -, h⟩ := exists_of_bind_ok h
        exact ih hothers h
    · obtain ⟨⟨⟩, hd, h⟩ := exists_of_bind_ok h
      exact ih (List.forall_mem_cons.mpr ⟨depth_of_buffered ht hp hd, hothers⟩) h

/-- What a tagged value of a text hands to its variant has two containers less room. -/
theorem content_of_tagged {α : Type} {typeName : String}
    {content : String → Draft → Except DecodeError α} {d : Draft} {a : α}
    (h : Decoder.tagged typeName variants content .text d = .ok a) :
    ∃ name rest, rest.depth ≤ 127 ∧ content name rest = .ok a := by
  unfold Decoder.tagged at h
  split at h
  · rename_i members stop
    obtain ⟨q, hq, h⟩ := exists_of_bind_ok h
    obtain ⟨⟨tag, others⟩, htag, h⟩ := exists_of_bind_ok h
    dsimp only at h
    obtain ⟨⟨⟩, -, h⟩ := exists_of_bind_ok h
    obtain ⟨-, ht, hdepth⟩ := Place.enter_text rfl hq
    have hlt : ∀ m ∈ others, m.2.depth < q.depth :=
      depth_of_tagOfMembers ht (by rw [hdepth]; decide) (by simp) htag
    cases tag with
    | none => cases h
    | some name =>
      refine ⟨name, _, ?_, h⟩
      have hle : Draft.depthMembers others ≤ 126 := by
        refine (Draft.depthMembers_le_iff others 126).mpr fun m hm => ?_
        have := hlt m hm
        rw [hdepth] at this
        exact Nat.le_of_lt_succ this
      rw [Draft.depth]
      omega
  · rename_i items stop
    obtain ⟨q, hq, h⟩ := exists_of_bind_ok h
    obtain ⟨-, ht, hdepth⟩ := Place.enter_text rfl hq
    split at h
    · obtain ⟨-, -, h⟩ := exists_of_bind_ok h
      cases h
    · rename_i first rest
      obtain ⟨name, -, h⟩ := exists_of_bind_ok h
      obtain ⟨⟨⟩, hrest, h⟩ := exists_of_bind_ok h
      obtain ⟨-, -, h⟩ := exists_of_bind_ok h
      have hlt := depth_of_bufferedItems ht (by rw [hdepth]; decide) hrest
      refine ⟨name, _, ?_, h⟩
      rw [Draft.depth]
      rw [hdepth] at hlt
      exact hlt
  · cases h

theorem eq_of_variantUnit {α : Type} {a b : α} {d : Draft}
    (h : Decoder.variantUnit a d = .ok b) : b = a := by
  unfold Decoder.variantUnit at h
  split at h
  · obtain ⟨-, -, h⟩ := exists_of_bind_ok h
    exact (Except.ok.inj h).symm
  · exact (Except.ok.inj h).symm

end

/-- The body of a message that a text spells. -/
theorem ClientFrame.body_of_ofText {bytes : List UInt8} {body : Json}
    (h : ClientFrame.decoder.ofText bytes = .ok (.message body)) :
    body.canonical = body ∧ body.depth ≤ 126 := by
  obtain ⟨f, hf, hend⟩ := exists_of_bind_ok h
  obtain rfl : f = .message body := by
    split at hend
    · cases hend
    · exact Except.ok.inj hend
  obtain ⟨kind, rest, hdepth, hcontent⟩ := content_of_tagged hf
  have hrecord : bodyRecord.Gives fun n v => v.canonical = v ∧ v.depth ≤ n := by
    refine gives_field _ _ gives_json ?_
    rintro v (hv | hv) n <;> cases hv
  split at hcontent
  · obtain ⟨x, -, hx⟩ := exists_of_map_ok hcontent
    cases hx
  · split at hcontent
    · obtain ⟨v, hv, hbody⟩ := exists_of_map_ok hcontent
      obtain rfl := ClientFrame.message.inj hbody
      exact given_by_variantRecord _ hrecord hdepth hv
    · split at hcontent
      · cases eq_of_variantUnit hcontent
      · cases eq_of_variantUnit hcontent

/-- The body of a message that a reader gets. -/
theorem body_of_poll {i j : Inbox} {n : Nat} {body : Json}
    (h : i.poll ClientFrame.decoder n = some (some (.frame (.message body)), j)) :
    body.canonical = body ∧ body.depth ≤ 126 := by
  obtain ⟨k, rest, hp, -⟩ := (Wire.poll_eq_frame_iff _ _ _ _ _).mp h
  obtain ⟨line, tail, length, -, -, -, -, htext, -⟩ := (Wire.parse_complete_iff _ _ _ _ _).mp hp
  exact ClientFrame.body_of_ofText htext

end EchoServer
