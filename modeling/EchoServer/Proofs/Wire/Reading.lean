import EchoServer.Proofs.Wire.Prefix

/-! `outcome` is what a stream says when all of it is there; `readAll` gets it chunk by chunk. Both
come to the same, unless a length line is met on the way that is cut short. -/
namespace EchoServer.Wire

open Json (Decoder)

/-- `chunks` are the bytes of a stream in pieces, none of them empty. -/
def IsChunking (bytes : List UInt8) (chunks : List (List UInt8)) : Prop :=
  chunks.flatten = bytes ∧ [] ∉ chunks

section
variable {α : Type} (frame : Decoder α)

theorem poll_eq_frame_iff (i j : Inbox) (n : Nat) (f : α) :
    i.poll frame n = some (some (.frame f), j) ↔
      ∃ k rest, parse frame i.buffer = .ok (.complete f k rest) ∧ j = { i with buffer := rest } := by
  unfold Inbox.poll Inbox.fromBuffer
  cases hp : parse frame i.buffer with
  | error e => simp
  | ok p =>
    cases p with
    | complete g k rest =>
      simp only [Option.some.injEq, Prod.mk.injEq, Received.frame.injEq, Except.ok.injEq,
        Parsed.complete.injEq]
      constructor
      · rintro ⟨rfl, rfl⟩
        exact ⟨k, rest, ⟨rfl, rfl, rfl⟩, rfl⟩
      · rintro ⟨_, _, ⟨rfl, rfl, rfl⟩, rfl⟩
        exact ⟨rfl, rfl⟩
    | incomplete => by_cases ha : i.arrived = [] <;> cases i.closed <;> cases i.buffer <;> simp [ha]

theorem poll_eq_more_iff (i j : Inbox) (n : Nat) :
    i.poll frame n = some (none, j) ↔
      parse frame i.buffer = .ok .incomplete ∧ i.arrived ≠ [] ∧ j = i.take (max n 1) := by
  unfold Inbox.poll Inbox.fromBuffer
  cases hp : parse frame i.buffer with
  | error e => simp
  | ok p =>
    cases p with
    | complete g k rest => simp
    | incomplete => by_cases ha : i.arrived = [] <;> cases i.closed <;> simp [ha, @eq_comm _ j]

theorem poll_eq_none_iff (i : Inbox) (n : Nat) :
    i.poll frame n = none ↔
      parse frame i.buffer = .ok .incomplete ∧ i.arrived = [] ∧ i.closed = false := by
  unfold Inbox.poll Inbox.fromBuffer
  cases hp : parse frame i.buffer with
  | error e => simp
  | ok p =>
    cases p with
    | complete g k rest => simp
    | incomplete => by_cases ha : i.arrived = [] <;> cases i.closed <;> simp [ha]

/-- The failures that a look at the inbox finds leave it as it is: those of its bytes, and the end
of the stream in the middle of a frame. -/
theorem poll_eq_failed_iff (i j : Inbox) (n : Nat) (e : FrameError) :
    i.poll frame n = some (some (.failed e), j) ↔ j = i ∧
      (parse frame i.buffer = .error e ∨
        parse frame i.buffer = .ok .incomplete ∧ i.arrived = [] ∧ i.closed = true ∧
          i.buffer ≠ [] ∧ e = .unexpectedEnd) := by
  unfold Inbox.poll Inbox.fromBuffer
  cases hp : parse frame i.buffer with
  | error e' => simp [and_comm, @eq_comm _ j]
  | ok p =>
    cases p with
    | complete g k rest => simp
    | incomplete =>
      by_cases ha : i.arrived = [] <;> cases i.closed <;> cases hb : i.buffer <;>
        simp [ha, and_comm, @eq_comm _ j, @eq_comm _ e]

/-- The stream ends cleanly where nothing is left of it. -/
theorem poll_eq_ended_iff (i j : Inbox) (n : Nat) :
    i.poll frame n = some (some .ended, j) ↔
      j = i ∧ i.buffer = [] ∧ i.arrived = [] ∧ i.closed = true := by
  unfold Inbox.poll Inbox.fromBuffer
  cases hp : parse frame i.buffer with
  | error e =>
    have hb : i.buffer ≠ [] := by
      intro hb
      rw [hb] at hp
      cases hp
    simp [hb]
  | ok p =>
    cases p with
    | complete g k rest =>
      have hb : i.buffer ≠ [] := by
        intro hb
        rw [hb] at hp
        cases hp
      simp [hb]
    | incomplete =>
      by_cases ha : i.arrived = [] <;> cases i.closed <;> cases hb : i.buffer <;>
        simp [ha, @eq_comm _ j]

/-- The frames of a stream that is there as a whole, and the failure at its end, if it has no
clean end. -/
def outcome (bytes : List UInt8) : List α × Option FrameError :=
  match h : parse frame bytes with
  | .ok (.complete f _ rest) =>
    have : rest.length < bytes.length := by
      have := parse_complete_bytes frame bytes rest f _ h
      omega
    ((f :: (outcome rest).1), (outcome rest).2)
  | .ok .incomplete => ([], if bytes.isEmpty then none else some .unexpectedEnd)
  | .error e => ([], some e)
termination_by bytes.length

theorem outcome_of_complete (bytes rest : List UInt8) (f : α) (n : Nat)
    (h : parse frame bytes = .ok (.complete f n rest)) :
    outcome frame bytes = (f :: (outcome frame rest).1, (outcome frame rest).2) := by
  rw [outcome]
  split <;> simp_all

theorem outcome_of_incomplete (bytes : List UInt8) (h : parse frame bytes = .ok .incomplete) :
    outcome frame bytes = ([], if bytes.isEmpty then none else some .unexpectedEnd) := by
  rw [outcome]
  split <;> simp_all

theorem outcome_of_error (bytes : List UInt8) (e : FrameError)
    (h : parse frame bytes = .error e) : outcome frame bytes = ([], some e) := by
  rw [outcome]
  split <;> simp_all

/-- What a reader got out of a stream: its frames, the bytes that each of them took, the failure if
the stream did not end cleanly, and what the reader holds in the end. -/
structure Transcript (α : Type) where
  frames : List α
  taken : List (List UInt8)
  failure : Option FrameError
  inbox : Inbox

/-- The bytes that a reader has taken from its buffer between two moments. -/
def takenBetween (i j : Inbox) : List UInt8 := i.buffer.take (i.buffer.length - j.buffer.length)

/-- Reads a stream to its end. The chunks come one by one, each when the reader has used up all
that came before and waits for more; the stream is closed behind the last one. -/
def readAll (i : Inbox) (chunks : List (List UInt8)) : Transcript α :=
  match _h : i.poll frame i.arrived.length with
  | some (some (.frame f), j) =>
    let t := readAll j chunks
    { t with frames := f :: t.frames, taken := takenBetween i j :: t.taken }
  | some (some .ended, j) => ⟨[], [], none, j⟩
  | some (some (.failed e), j) => ⟨[], [], some e, j⟩
  | some (none, j) => readAll j chunks
  | none => match chunks with
    | [] => readAll i.close []
    | c :: rest => readAll (i.receive c) rest
termination_by (i.size + chunks.flatten.length,
  i.arrived.length + chunks.flatten.length + 2 * chunks.length + (!i.closed).toNat)
decreasing_by
  · obtain ⟨k, rest, hp, rfl⟩ := (poll_eq_frame_iff frame i j _ f).mp _h
    have := parse_complete_bytes frame _ rest f k hp
    apply Prod.Lex.left
    simp only [Inbox.size]
    omega
  · obtain ⟨-, ha, rfl⟩ := (poll_eq_more_iff frame i j _).mp _h
    have := List.length_pos_iff.mpr ha
    apply Prod.Lex.right'
    · simp only [Inbox.size, Inbox.take, List.length_append, List.length_take, List.length_drop]
      omega
    · simp only [Inbox.take, List.length_drop]
      omega
  · obtain ⟨-, -, hc⟩ := (poll_eq_none_iff frame i _).mp _h
    apply Prod.Lex.right
    simp [Inbox.close, hc]
  · apply Prod.Lex.right'
    · simp only [Inbox.size, Inbox.receive, List.length_append, List.flatten_cons]
      omega
    · simp only [Inbox.receive, List.length_append, List.flatten_cons, List.length_cons]
      omega

theorem readAll_of_failed (i j : Inbox) (chunks : List (List UInt8)) (e : FrameError)
    (h : i.poll frame i.arrived.length = some (some (.failed e), j)) :
    readAll frame i chunks = ⟨[], [], some e, j⟩ := by
  rw [readAll.eq_def]
  split <;> simp_all

theorem readAll_of_frame (i j : Inbox) (chunks : List (List UInt8)) (f : α)
    (h : i.poll frame i.arrived.length = some (some (.frame f), j)) :
    readAll frame i chunks =
      { readAll frame j chunks with
        frames := f :: (readAll frame j chunks).frames,
        taken := takenBetween i j :: (readAll frame j chunks).taken } := by
  rw [readAll.eq_def]
  split <;> simp_all

theorem readAll_of_more (i j : Inbox) (chunks : List (List UInt8))
    (h : i.poll frame i.arrived.length = some (none, j)) :
    readAll frame i chunks = readAll frame j chunks := by
  rw [readAll.eq_def]
  split <;> simp_all

theorem readAll_of_wait (i : Inbox) (c : List UInt8) (rest : List (List UInt8))
    (h : i.poll frame i.arrived.length = none) :
    readAll frame i (c :: rest) = readAll frame (i.receive c) rest := by
  rw [readAll.eq_def]
  split <;> simp_all

/-- The bytes `tail` of `bytes` begin where a frame begins: only whole frames stand before them. -/
inductive Boundary : List UInt8 → List UInt8 → Prop
  | start (bytes : List UInt8) : Boundary bytes bytes
  | next (bytes rest tail : List UInt8) (f : α) (n : Nat)
      (h : parse frame bytes = .ok (.complete f n rest)) (ht : Boundary rest tail) :
      Boundary bytes tail

theorem Boundary.length_le (bytes tail : List UInt8) (h : Boundary frame bytes tail) :
    tail.length ≤ bytes.length := by
  induction h with
  | start bytes => exact Nat.le_refl _
  | next bytes rest tail f n hp ht ih =>
    have := parse_complete_bytes frame bytes rest f n hp
    omega

/-- A stream in which a length line is met that is cut short. -/
def Fragile (bytes : List UInt8) : Prop :=
  ∃ tail line rest, Boundary frame bytes tail ∧ splitLine tail = some (line, rest) ∧ CutShort line

theorem fragile_of_rest (bytes rest : List UInt8) (f : α) (n : Nat)
    (hp : parse frame bytes = .ok (.complete f n rest)) (h : Fragile frame rest) :
    Fragile frame bytes := by
  obtain ⟨tail, line, more, hb, hs, hc⟩ := h
  exact ⟨tail, line, more, .next bytes rest tail f n hp hb, hs, hc⟩

/-- What is left of a stream while it is read: what the reader holds, what has arrived, and the
chunks that are still to come. -/
def unread (i : Inbox) (chunks : List (List UInt8)) : List UInt8 :=
  i.buffer ++ i.arrived ++ chunks.flatten

/-- A reader gets what the whole stream says, if no length line is cut short, or if the reader
holds all of the stream already. -/
theorem readAll_eq_outcome (i : Inbox) (chunks : List (List UInt8))
    (hopen : i.closed = true → chunks = [])
    (h : ¬ Fragile frame (unread i chunks) ∨ i.arrived = [] ∧ chunks = []) :
    ((readAll frame i chunks).frames, (readAll frame i chunks).failure) =
      outcome frame (unread i chunks) := by
  -- every look at the inbox leaves the unread bytes as they are, or takes a frame from their front
  fun_induction readAll frame i chunks with
  | case1 i chunks f j hpoll t ih =>
    obtain ⟨k, rest, hp, rfl⟩ := (poll_eq_frame_iff frame i j _ f).mp hpoll
    have hall : parse frame (unread i chunks) =
        .ok (.complete f k (unread { i with buffer := rest } chunks)) := by
      simpa only [unread, List.append_assoc] using
        parse_append_complete frame i.buffer rest (i.arrived ++ chunks.flatten) f k hp
    have hrest : ¬ Fragile frame (unread { i with buffer := rest } chunks) ∨
        i.arrived = [] ∧ chunks = [] :=
      h.imp_left fun hsafe hfrag => hsafe (fragile_of_rest frame _ _ f k hall hfrag)
    rw [outcome_of_complete frame _ _ f k hall, ← ih hopen hrest]
  | case2 i chunks j hpoll =>
    obtain ⟨rfl, hb, ha, hc⟩ := (poll_eq_ended_iff frame i j _).mp hpoll
    have hall : unread j chunks = [] := by simp [unread, hb, ha, hopen hc]
    rw [hall, outcome_of_incomplete frame [] rfl]
    rfl
  | case3 i chunks e j hpoll =>
    obtain ⟨rfl, hp | ⟨hp, ha, hc, hb, rfl⟩⟩ := (poll_eq_failed_iff frame i j _ e).mp hpoll
    -- a failure of the bytes so far is one of the whole stream, unless a length line is cut short
    · have hall : parse frame (unread j chunks) = .error e := by
        rcases h with hsafe | ⟨ha, rfl⟩
        · rcases parse_append_error frame j.buffer (j.arrived ++ chunks.flatten) e hp with
            he | ⟨line, rest, hs, hcut⟩
          · simpa only [unread, List.append_assoc] using he
          · refine absurd ⟨_, line, rest, .start _, ?_, hcut⟩ hsafe
            simpa only [unread, List.append_assoc] using hs
        · simpa [unread, ha] using hp
      rw [outcome_of_error frame _ e hall]
    · have hall : unread j chunks = j.buffer := by simp [unread, ha, hopen hc]
      rw [hall, outcome_of_incomplete frame _ hp]
      simp [hb]
  | case4 i chunks j hpoll ih =>
    obtain ⟨hp, ha, rfl⟩ := (poll_eq_more_iff frame i j _).mp hpoll
    have hsame : unread (i.take (max i.arrived.length 1)) chunks = unread i chunks := by
      simp [unread, Inbox.take, List.append_assoc, List.take_append_drop]
    rw [← hsame]
    exact ih hopen (h.imp (by rw [hsame]; exact id) fun hh => absurd hh.1 ha)
  | case5 i hpoll ih =>
    obtain ⟨hp, ha, hc⟩ := (poll_eq_none_iff frame i _).mp hpoll
    exact ih (fun _ => rfl) h
  | case6 i hpoll c rest ih =>
    obtain ⟨hp, ha, hc⟩ := (poll_eq_none_iff frame i _).mp hpoll
    have hsame : unread (i.receive c) rest = unread i (c :: rest) := by
      simp [unread, Inbox.receive]
    rw [← hsame]
    refine ih (fun hclosed => ?_) (Or.inl ?_)
    · rw [Inbox.receive, hc] at hclosed
      cases hclosed
    · rw [hsame]
      exact h.resolve_right fun hh => by cases hh.2

end
end EchoServer.Wire
