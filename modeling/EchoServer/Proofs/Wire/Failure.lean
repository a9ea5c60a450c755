import EchoServer.Proofs.Wire.Reading

namespace EchoServer.Wire

open Json (Decoder)

section
variable {α : Type} (frame : Decoder α)

/-- What may become of an inbox: bytes arrive while it is open, it is closed, and readers look at
it, whether they get something or are abandoned before. -/
inductive Inbox.Later (i : Inbox) : Inbox → Prop
  | refl : Later i i
  | receive (j bytes) (h : Later i j) (hopen : j.closed = false) : Later i (j.receive bytes)
  | close (j) (h : Later i j) : Later i j.close
  | poll (j n got k) (h : Later i j) (hpoll : j.poll frame n = some (got, k)) : Later i k

/-- The next reader fails with `e`: the buffer begins with a malformed frame, or the stream has
ended in the middle of one. -/
def Inbox.Failing (i : Inbox) (e : FrameError) : Prop :=
  parse frame i.buffer = .error e ∨
    parse frame i.buffer = .ok .incomplete ∧ i.arrived = [] ∧ i.closed = true ∧ i.buffer ≠ [] ∧
      e = .unexpectedEnd

variable {frame} {i j k : Inbox} {e : FrameError} {n : Nat}

theorem failing_of_poll (h : i.poll frame n = some (some (.failed e), j)) :
    j = i ∧ i.Failing frame e := (poll_eq_failed_iff frame i j n e).mp h

/-- Whatever a reader is ready to take, it fails and leaves everything in place. -/
theorem Inbox.Failing.poll (h : i.Failing frame e) (n : Nat) :
    i.poll frame n = some (some (.failed e), i) :=
  (poll_eq_failed_iff frame i i n e).mpr ⟨rfl, h⟩

theorem Inbox.Failing.next (h : i.Failing frame e) :
    i.next frame = (some (.failed e), i) := by
  simp [Inbox.next, h.poll]

theorem Inbox.Failing.receive (h : i.Failing frame e) (hopen : i.closed = false)
    (bytes : List UInt8) : (i.receive bytes).Failing frame e := by
  rcases h with h | ⟨-, -, hclosed, -⟩
  · exact Or.inl h
  -- nothing arrives once the stream is closed
  · rw [hopen] at hclosed
    cases hclosed

theorem Inbox.Failing.close (h : i.Failing frame e) : i.close.Failing frame e := by
  rcases h with h | ⟨hp, ha, -, hb, he⟩
  · exact Or.inl h
  · exact Or.inr ⟨hp, ha, rfl, hb, he⟩

/-- A reader whose next frame fails has found a failing inbox, after it took what had arrived. -/
theorem failing_of_next (h : i.next frame = (some (.failed e), j)) :
    Inbox.Later frame i j ∧ j.Failing frame e := by
  unfold Inbox.next at h
  split at h
  · cases h
  · rename_i r k hpoll
    obtain ⟨rfl, rfl⟩ : r = .failed e ∧ k = j := by simpa using h
    obtain ⟨rfl, hfailing⟩ := failing_of_poll hpoll
    exact ⟨.refl, hfailing⟩
  · rename_i k hpoll
    have hlater : Inbox.Later frame i k := .poll i _ none k .refl hpoll
    split at h
    · rename_i r l hagain
      obtain ⟨rfl, rfl⟩ : r = some (.failed e) ∧ l = j := by simpa using h
      obtain ⟨rfl, hfailing⟩ := failing_of_poll hagain
      exact ⟨hlater, hfailing⟩
    · cases h

/-- A failing inbox stays one, and its buffer stays what it is. -/
theorem Inbox.Failing.later (h : i.Failing frame e) (hlater : Inbox.Later frame i j) :
    j.Failing frame e ∧ j.buffer = i.buffer := by
  induction hlater with
  | refl => exact ⟨h, rfl⟩
  | receive j bytes _ hopen ih => exact ⟨ih.1.receive hopen bytes, ih.2⟩
  | close j _ ih => exact ⟨ih.1.close, ih.2⟩
  | poll j n got k _ hpoll ih =>
    rw [ih.1.poll n] at hpoll
    obtain ⟨-, rfl⟩ := Prod.mk.inj (Option.some.inj hpoll)
    exact ih

end

end EchoServer.Wire
