import EchoServer.Proofs.Json.Torn
import EchoServer.Proofs.Wire.RoundTrip

namespace EchoServer.Wire

open Json (Apart Decoder Torn isDigit)

theorem lengthOf?_some {line : List UInt8} {n : Nat} (h : lengthOf? line = some n) :
    line ≠ [] ∧ (∀ b ∈ line, isDigit b = true) ∧
      n = Nat.ofDigitChars 10 (line.map fun b => Char.ofNat b.toNat) 0 := by
  unfold lengthOf? at h
  split at h
  · rename_i hline
    rw [Bool.and_eq_true, List.all_eq_true] at hline
    dsimp only at h
    split at h
    · obtain rfl := Option.some.inj h
      exact ⟨by simpa using hline.1, hline.2, rfl⟩
    · cases h
  · cases h

/-- Digits in front of a length make it no shorter. -/
theorem le_of_lengthOf? {front : List UInt8} {n m : Nat}
    (h : lengthOf? (front ++ lengthLine n) = some m) : n ≤ m := by
  obtain ⟨-, -, rfl⟩ := lengthOf?_some h
  rw [List.map_append, Nat.ofDigitChars_append, chars_lengthLine,
    Nat.ofDigitChars_eq_ofDigitChars_zero, Nat.ofDigitChars_ten_toDigits]
  exact Nat.le_add_left _ _

theorem encode_object (members : List (String × Json)) (more : List UInt8) :
    encode (.object members) ++ more = lengthLine (Json.object members).print.length ++
      0x0D :: 0x0A :: ((Json.object members).print ++ more) := by
  simp [encode_eq]

/-- Text that ends in digits and then `t`. -/
theorem torn_of_digits {digits : List UInt8} (part t : List UInt8) (hne : digits ≠ [])
    (hdigits : ∀ b ∈ digits, isDigit b = true) : Torn t (part ++ (digits ++ t)) := by
  refine ⟨part ++ digits.dropLast, digits.getLast hne, ?_, hdigits _ (List.getLast_mem hne)⟩
  calc
    part ++ (digits ++ t) = part ++ ((digits.dropLast ++ [digits.getLast hne]) ++ t) := by
      rw [List.dropLast_append_getLast]
    _ = (part ++ digits.dropLast) ++ digits.getLast hne :: t := by simp

/-- What stands behind the length line of an object, as much of it as there is. -/
theorem apart_body (body : List UInt8) (n : Nat) (h : ∃ more, body = 0x7B :: more) :
    Apart ((0x0D :: 0x0A :: body).take n) := by
  obtain ⟨more, rfl⟩ := h
  match n with
  | 0 => exact Or.inl rfl
  | 1 => exact Or.inr ⟨[], rfl, Or.inl rfl⟩
  | 2 => exact Or.inr ⟨[0x0A], rfl, Or.inl rfl⟩
  | n + 3 => exact Or.inr ⟨_, rfl, Or.inr ⟨more.take n, rfl⟩⟩

/-- The front of an object's frame behind a part of a body makes a torn text. -/
theorem torn_of_encode (part more : List UInt8) (members : List (String × Json)) (n : Nat)
    (hn : 0 < n) : ∃ t, Apart t ∧ Torn t (part ++ (encode (.object members) ++ more).take n) := by
  have hbody : ∃ rest, (Json.object members).print ++ more = 0x7B :: rest := by
    cases members <;> exact ⟨_, rfl⟩
  rw [encode_object, List.take_append]
  have hapart := apart_body _ (n - (lengthLine (Json.object members).print.length).length) hbody
  refine ⟨_, hapart, ?_⟩
  apply torn_of_digits
  · simpa using ⟨Nat.ne_of_gt hn, lengthLine_ne_nil _⟩
  · intro b hb
    exact isDigit_of_lengthLine _ b (List.mem_of_mem_take hb)

/-- Lines that end at the same place are the same. -/
theorem line_inj {line line' rest rest' : List UInt8} (h : ∀ b ∈ line, isDigit b = true)
    (h' : ∀ b ∈ line', isDigit b = true)
    (heq : line ++ 0x0D :: rest = line' ++ 0x0D :: rest') : line = line' ∧ rest = rest' := by
  induction line generalizing line' with
  | nil =>
    cases line' with
    | nil => exact ⟨rfl, (List.cons.inj heq).2⟩
    | cons b line' =>
      obtain ⟨rfl, -⟩ := List.cons.inj heq
      exact absurd rfl (not_newline_of_digit (h' 0x0D (by simp)))
  | cons b line ih =>
    cases line' with
    | nil =>
      obtain ⟨rfl, -⟩ := List.cons.inj heq
      exact absurd rfl (not_newline_of_digit (h 0x0D (by simp)))
    | cons c line' =>
      obtain ⟨rfl, htail⟩ := List.cons.inj heq
      have hline : ∀ x ∈ line, isDigit x = true := fun x hx => h x (by simp [hx])
      have hline' : ∀ x ∈ line', isDigit x = true := fun x hx => h' x (by simp [hx])
      obtain ⟨rfl, hrest⟩ := ih hline hline' htail
      exact ⟨rfl, hrest⟩

section
variable {α : Type} {frame : Decoder α} {front line part more rest : List UInt8}
  {members : List (String × Json)} {g : α} {m : Nat}

/-- More digits in front of the length: what is read of the longer body is what is read of the
object. -/
theorem ofText_of_cut_length (hfront : ∀ b ∈ front, isDigit b = true)
    (hread : parse frame (front ++ (encode (.object members) ++ more)) =
      .ok (.complete g m rest)) :
    frame.ofText (Json.object members).print = .ok g := by
  obtain ⟨line', body, length, hs, hl, -, -, hg, -, -⟩ := (parse_complete_iff _ _ _ _ _).mp hread
  have hline : ∀ b ∈ front ++ lengthLine (Json.object members).print.length, b ≠ 0x0D := by
    intro b hb
    rcases List.mem_append.mp hb with hb | hb
    · exact not_newline_of_digit (hfront b hb)
    · exact not_newline_of_digit (isDigit_of_lengthLine _ b hb)
  rw [encode_object, ← List.append_assoc, splitLine_ended _ _ hline] at hs
  obtain ⟨rfl, rfl⟩ := Prod.mk.inj (Option.some.inj hs)
  have hlonger := le_of_lengthOf? hl
  rw [List.take_append, List.take_of_length_le hlonger] at hg
  exact Json.ofText_object_append frame members _ g hg

/-- Half of the end of a line in front of the length is a part of the line, and no digit. -/
theorem not_complete_of_cut_newline (hline : ∀ b ∈ line, isDigit b = true) :
    parse frame ((line ++ [0x0D]) ++ (encode (.object members) ++ more)) ≠
      .ok (.complete g m rest) := by
  intro hread
  obtain ⟨line', body, length, hs, hl, -⟩ := (parse_complete_iff _ _ _ _ _).mp hread
  obtain ⟨-, hline', -⟩ := lengthOf?_some hl
  obtain ⟨d, ds, hd⟩ := List.exists_cons_of_ne_nil
    (lengthLine_ne_nil (Json.object members).print.length)
  have hsplit := eq_append_of_splitLine _ _ _ hs
  rw [encode_object, hd, List.append_assoc] at hsplit
  obtain ⟨-, hbehind⟩ := line_inj hline hline' hsplit
  obtain ⟨rfl, -⟩ := List.cons.inj hbehind
  have hdigit := isDigit_of_lengthLine (Json.object members).print.length 0x0A (by simp [hd])
  cases hdigit

/-- A part of a body in front of the length makes a torn text of the body. -/
theorem ofText_of_cut_body {k : Nat} (hl : lengthOf? line = some (part.length + k))
    (hread : parse frame ((line ++ 0x0D :: 0x0A :: part) ++ (encode (.object members) ++ more)) =
      .ok (.complete g m rest)) :
    frame.ofText (part ++ (encode (.object members) ++ more).take k) = .ok g := by
  obtain ⟨line', body, length, hs, hl', -, -, hg, -, -⟩ := (parse_complete_iff _ _ _ _ _).mp hread
  obtain ⟨-, hdigits, -⟩ := lengthOf?_some hl
  rw [List.append_assoc, List.cons_append, List.cons_append,
    splitLine_ended _ _ fun b hb => not_newline_of_digit (hdigits b hb)] at hs
  obtain ⟨rfl, rfl⟩ := Prod.mk.inj (Option.some.inj hs)
  obtain rfl := Option.some.inj (hl.symm.trans hl')
  rwa [List.take_append, List.take_of_length_le (Nat.le_add_right _ _),
    Nat.add_sub_cancel_left] at hg

end

/-- Where a frame is cut off and an object is sent in place of its rest, there is no frame but that
of the object. -/
theorem ofText_of_torn {α : Type} {typeName : String} {variants : List String}
    {content : String → Json.Draft → Except Json.DecodeError α}
    {front lost more rest : List UInt8} {members : List (String × Json)} {x g : α} {n m : Nat}
    (hlost : lost ≠ [])
    (hwhole : parse (Decoder.tagged typeName variants content) (front ++ lost) =
      .ok (.complete x n []))
    (hread : parse (Decoder.tagged typeName variants content)
      (front ++ (encode (.object members) ++ more)) = .ok (.complete g m rest)) :
    Decoder.ofText (Decoder.tagged typeName variants content) (Json.object members).print =
      .ok g := by
  obtain ⟨line, body, length, hs, hl, -, hle, -, -, hend⟩ :=
    (parse_complete_iff _ _ _ _ _).mp hwhole
  obtain ⟨-, hdigits, -⟩ := lengthOf?_some hl
  have hframe := eq_append_of_splitLine _ _ _ hs
  rcases Nat.lt_trichotomy front.length (line.length + 1) with hshort | hsame | hlong
  · have hfront : front <+: line :=
      List.prefix_of_prefix_length_le ⟨lost, rfl⟩ ⟨_, hframe.symm⟩ (Nat.le_of_lt_succ hshort)
    exact ofText_of_cut_length (fun b hb => hdigits b (hfront.subset hb)) hread
  · obtain ⟨rfl, -⟩ : front = line ++ [0x0D] ∧ lost = 0x0A :: body :=
      List.append_inj (by rw [hframe]; simp) (by simpa using hsame)
    exact absurd hread (not_complete_of_cut_newline hdigits)
  · have hbody : front ++ lost = (line ++ [0x0D, 0x0A]) ++ body := by rw [hframe]; simp
    obtain ⟨part, rfl⟩ : line ++ [0x0D, 0x0A] <+: front :=
      List.prefix_of_prefix_length_le ⟨body, hbody.symm⟩ ⟨lost, rfl⟩ (by simp; omega)
    obtain rfl : part ++ lost = body := by
      rw [List.append_assoc] at hbody
      exact List.append_cancel_left hbody
    have hlength : length = part.length + lost.length := by
      rw [← List.length_append]
      exact Nat.le_antisymm hle (List.drop_eq_nil_iff.mp hend.symm)
    rw [List.append_assoc line] at hread
    have htext := ofText_of_cut_body (hlength ▸ hl) hread
    obtain ⟨t, ht, htorn⟩ := torn_of_encode part more members lost.length
      (List.length_pos_iff.mpr hlost)
    exact absurd htext (Json.ofText_torn ht htorn)

end EchoServer.Wire
