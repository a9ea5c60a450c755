import EchoServer.Proofs.Wire.Reading

namespace EchoServer.Wire

open Json (Decoder)

section
variable {α : Type} (frame : Decoder α)

/-- The frames `fs` stand at the front of `bytes`, and `rest` is behind them. -/
inductive Front : List UInt8 → List α → List UInt8 → Prop
  | nil (bytes : List UInt8) : Front bytes [] bytes
  | cons {bytes rest tail : List UInt8} {f : α} {n : Nat} {fs : List α}
      (hp : parse frame bytes = .ok (.complete f n rest)) (h : Front rest fs tail) :
      Front bytes (f :: fs) tail

end

section
variable {α : Type} {frame : Decoder α} {bytes rest tail more : List UInt8} {fs gs : List α}

theorem Front.append (h : Front frame bytes fs rest) (more : List UInt8) :
    Front frame (bytes ++ more) fs (rest ++ more) := by
  induction h with
  | nil bytes => exact .nil _
  | cons hp _ ih => exact .cons (parse_append_complete frame _ _ more _ _ hp) ih

theorem Front.trans (h : Front frame bytes fs rest) (h' : Front frame rest gs tail) :
    Front frame bytes (fs ++ gs) tail := by
  induction h with
  | nil bytes => exact h'
  | cons hp _ ih => exact .cons hp (ih h')

/-- What is behind the frames is the end of the bytes. -/
theorem Front.isSuffix (h : Front frame bytes fs rest) : rest <:+ bytes := by
  induction h with
  | nil bytes => exact List.suffix_rfl
  | cons hp _ ih =>
    obtain ⟨hdrop, -, -⟩ := parse_complete_bytes frame _ _ _ _ hp
    exact ih.trans (hdrop ▸ List.drop_suffix _ _)

theorem Front.drop_eq (h : Front frame bytes fs rest) :
    bytes.drop (bytes.length - rest.length) = rest :=
  (List.suffix_iff_eq_drop.mp h.isSuffix).symm

/-- Frames at the front of nothing. -/
theorem Front.of_nil (h : Front frame [] fs rest) : fs = [] ∧ rest = [] := by
  cases h with
  | nil => exact ⟨rfl, rfl⟩
  | cons hp _ =>
    have hlen := parse_complete_bytes frame _ _ _ _ hp
    simp at hlen
    omega

/-- Of two readers of the same bytes, one is as far as the other or has come further. -/
theorem Front.compare (h : Front frame bytes fs rest) (h' : Front frame bytes gs tail) :
    (∃ hs, gs = fs ++ hs ∧ Front frame rest hs tail) ∨
      ∃ hs, hs ≠ [] ∧ fs = gs ++ hs ∧ Front frame tail hs rest := by
  induction h generalizing gs with
  | nil bytes => exact Or.inl ⟨gs, rfl, h'⟩
  | cons hp hrest ih =>
    cases h' with
    | nil => exact Or.inr ⟨_, by simp, rfl, .cons hp hrest⟩
    | cons hp' hrest' =>
      rw [hp] at hp'
      obtain ⟨rfl, -, rfl⟩ := by simpa using hp'
      rcases ih hrest' with ⟨hs, rfl, hfront⟩ | ⟨hs, hne, rfl, hfront⟩
      · exact Or.inl ⟨hs, rfl, hfront⟩
      · exact Or.inr ⟨hs, hne, rfl, hfront⟩

/-- Bytes that are cut off inside or in front of their last frame have fewer frames at their
front: the first ones. -/
theorem Front.cut {part : List UInt8} (h : Front frame (part ++ more) fs []) (hmore : more ≠ [])
    (hpart : Front frame part gs rest) : ∃ hs, hs ≠ [] ∧ fs = gs ++ hs := by
  rcases h.compare (hpart.append more) with ⟨hs, -, hfront⟩ | ⟨hs, hne, hfs, -⟩
  · obtain ⟨-, hnil⟩ := hfront.of_nil
    exact absurd (List.append_eq_nil_iff.mp hnil).2 hmore
  · exact ⟨hs, hne, hfs⟩

/-- Cut-off bytes are some whole frames, and behind them nothing or a part of the next one. -/
theorem Front.split {part : List UInt8} (h : Front frame (part ++ more) fs []) (hmore : more ≠ []) :
    ∃ whole torn gs hs, part = whole ++ torn ∧ fs = gs ++ hs ∧ Front frame whole gs [] ∧
      ∃ f n lost rest, lost ≠ [] ∧ parse frame (torn ++ lost) = .ok (.complete f n []) ∧
        more = lost ++ rest := by
  obtain ⟨last, hlast⟩ : ∃ last : List UInt8, last = [] := ⟨[], rfl⟩
  obtain ⟨all, hall⟩ : ∃ all, part ++ more = all := ⟨_, rfl⟩
  have hfront : Front frame all fs last := by rwa [← hall, hlast]
  clear h
  induction hfront generalizing part with
  | nil bytes =>
    rw [hlast] at hall
    exact absurd (List.append_eq_nil_iff.mp hall).2 hmore
  | @cons bytes behind tail f n fs hp hrest ih =>
    subst hall
    obtain ⟨hdrop, hlen, -⟩ := parse_complete_bytes frame _ _ _ _ hp
    by_cases hn : n ≤ part.length
    -- the first frame is there as a whole
    · have hbehind : part.drop n ++ more = behind := by
        rw [← List.drop_append_of_le_length hn]
        exact hdrop
      obtain ⟨whole, torn, gs, hs, hsplit, rfl, hwhole, hnext⟩ := ih hlast hbehind
      have htake : parse frame (part.take n) = .ok (.complete f n []) := by
        have hfirst : part ++ more = part.take n ++ (part.drop n ++ more) := by
          rw [← List.append_assoc, List.take_append_drop]
        rw [hfirst] at hp
        have hexact := parse_of_append_complete frame _ _ _ f n hp (by simp [hn])
        rwa [List.drop_take_self] at hexact
      refine ⟨part.take n ++ whole, torn, f :: gs, hs, ?_, rfl, ?_, hnext⟩
      · rw [List.append_assoc, ← hsplit, List.take_append_drop]
      · exact .cons (parse_append_complete frame _ _ whole _ _ htake) hwhole
    -- the cut is inside the first frame
    · have hfirst : part ++ more =
          (part ++ more.take (n - part.length)) ++ more.drop (n - part.length) := by
        rw [List.append_assoc, List.take_append_drop]
      have hlong : (part ++ more.take (n - part.length)).length = n := by
        rw [List.length_append, List.length_take]
        rw [List.length_append] at hlen
        omega
      rw [hfirst] at hp
      have hexact := parse_of_append_complete frame _ _ _ f n hp (Nat.le_of_eq hlong.symm)
      rw [List.drop_of_length_le (Nat.le_of_eq hlong)] at hexact
      refine ⟨[], part, [], f :: fs, rfl, rfl, .nil [], f, n, _, _, ?_, hexact,
        (List.take_append_drop _ _).symm⟩
      intro hnil
      rw [hnil, List.append_nil] at hlong
      omega

end

section
variable {α : Type} {frame : Decoder α}

/-- The bytes that are not taken yet. -/
def Inbox.bytes (i : Inbox) : List UInt8 := i.buffer ++ i.arrived

/-- The frame that a reader got, if it got one. -/
def Received.frame? : Received α → Option α
  | .frame f => some f
  | _ => none

theorem Inbox.length_bytes (i : Inbox) : i.bytes.length = i.size := List.length_append

theorem Inbox.bytes_receive (i : Inbox) (bytes : List UInt8) :
    (i.receive bytes).bytes = i.bytes ++ bytes := (List.append_assoc _ _ _).symm

theorem Inbox.bytes_take (i : Inbox) (n : Nat) : (i.take n).bytes = i.bytes := by
  simp [Inbox.bytes, Inbox.take]

/-- A reader takes the frame that it gets from the front of the bytes, and nothing else. -/
theorem Front.of_poll {i j : Inbox} {n : Nat} {got : Received α}
    (h : i.poll frame n = some (some got, j)) : Front frame i.bytes got.frame?.toList j.bytes := by
  cases got with
  | frame f =>
    obtain ⟨k, rest, hp, rfl⟩ := (poll_eq_frame_iff frame _ _ _ _).mp h
    exact .cons (parse_append_complete frame _ _ i.arrived _ _ hp) (.nil _)
  | ended =>
    obtain ⟨rfl, -⟩ := (poll_eq_ended_iff frame _ _ _).mp h
    exact .nil _
  | failed e =>
    obtain ⟨rfl, -⟩ := (poll_eq_failed_iff frame _ _ _ _).mp h
    exact .nil _

end
end EchoServer.Wire
