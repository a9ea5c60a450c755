import EchoServer.Json.Reader
import EchoServer.Proofs.Text.Utf8

namespace EchoServer.Json

/-- `pieces` are what is scanned where `cs` were written inside a string, and they join to `cs`. -/
structure Spells (pieces : List Piece) (cs : List Char) : Prop where
  scan : ∀ acc rest, scanString acc (utf8 (cs.flatMap escapeChar) ++ rest) =
    scanString (pieces.reverse ++ acc) rest
  join : ∀ stop acc rest, joinPieces stop acc (pieces ++ rest) =
    joinPieces stop ((utf8 cs).reverse ++ acc) rest

/-- Bytes that need no escape are taken as they are. -/
theorem scanString_plain (acc : List Piece) (bytes rest : List UInt8)
    (h : ∀ b ∈ bytes, b ≠ 0x22 ∧ b ≠ 0x5C ∧ ¬ b < 0x20) :
    scanString acc (bytes ++ rest) = scanString ((bytes.map Piece.byte).reverse ++ acc) rest := by
  induction bytes generalizing acc with
  | nil => rfl
  | cons b bytes ih =>
    obtain ⟨hq, hs, hc⟩ := h b (by simp)
    rw [List.cons_append, scanString.eq_def]
    simp only [hq, hs, hc, if_false]
    rw [ih _ fun c hc => h c (by simp [hc])]
    simp

theorem joinPieces_bytes (stop : StringEnd) (acc bytes : List UInt8) (rest : List Piece) :
    joinPieces stop acc (bytes.map Piece.byte ++ rest) =
      joinPieces stop (bytes.reverse ++ acc) rest := by
  induction bytes generalizing acc with
  | nil => rfl
  | cons b bytes ih =>
    rw [List.map_cons, List.cons_append, joinPieces, ih]
    simp

/-- The bytes of a character without an escape need none either. -/
theorem plain_of_not_escaped (c : Char) (hq : c ≠ '"') (hs : c ≠ '\\') (hc : ¬ c.toNat < 0x20)
    (b : UInt8) (hb : b ∈ String.utf8EncodeChar c) : b ≠ 0x22 ∧ b ≠ 0x5C ∧ ¬ b < 0x20 := by
  -- one byte with the number of the character, or several that are all above the ASCII range
  by_cases ha : c.toNat < 0x80
  · rw [utf8EncodeChar_of_ascii c ha, List.mem_singleton] at hb
    have hn : b.toNat = c.toNat := by
      rw [hb, UInt8.toNat_ofNat_of_lt' (Nat.lt_trans ha (by decide))]
    refine ⟨?_, ?_, ?_⟩
    · rintro rfl
      exact hq (Char.toNat_inj.mp hn.symm)
    · rintro rfl
      exact hs (Char.toNat_inj.mp hn.symm)
    · rw [UInt8.lt_iff_toNat_lt, hn]
      exact hc
  · have hge := utf8EncodeChar_above_ascii c (Nat.le_of_not_lt ha) b hb
    rw [UInt8.le_iff_toNat_le] at hge
    refine ⟨?_, ?_, ?_⟩
    · rintro rfl
      exact absurd hge (by decide)
    · rintro rfl
      exact absurd hge (by decide)
    · rw [UInt8.lt_iff_toNat_lt]
      exact Nat.not_lt.mpr (Nat.le_trans (by decide) hge)

theorem hexValue_hexDigit (n : Nat) (h : n < 16) :
    hexValue (UInt8.ofNat (hexDigit n).toNat) = some n ∧ (hexDigit n).toNat < 0x80 := by
  revert n
  decide

/-- A control character comes back from its number. -/
theorem spells_control (c : Char) (h : c.toNat < 0x20)
    (he : escapeChar c =
      ['\\', 'u', '0', '0', hexDigit (c.toNat / 16), hexDigit (c.toNat % 16)]) :
    Spells [.unit c.toNat] [c] := by
  obtain ⟨hv1, ha1⟩ := hexValue_hexDigit (c.toNat / 16) (by omega)
  obtain ⟨hv2, ha2⟩ := hexValue_hexDigit (c.toNat % 16) (by omega)
  have hzero : hexValue 0x30 = some 0 := by decide
  have hvalue : c.toNat / 16 * 16 + c.toNat % 16 = c.toNat := by omega
  constructor
  · intro acc rest
    have hbytes : utf8 ([c].flatMap escapeChar) ++ rest =
        0x5C :: 0x75 :: 0x30 :: 0x30 :: UInt8.ofNat (hexDigit (c.toNat / 16)).toNat ::
          UInt8.ofNat (hexDigit (c.toNat % 16)).toNat :: rest := by
      simp only [List.flatMap_cons, List.flatMap_nil, List.append_nil, he, utf8_cons, utf8_nil,
        utf8EncodeChar_of_ascii _ ha1, utf8EncodeChar_of_ascii _ ha2]
      rfl
    rw [hbytes, scanString.eq_def]
    simp [hexValue4, hzero, hv1, hv2, hvalue]
  · intro stop acc rest
    have hlow : isLowSurrogate c.toNat = false := by simp [isLowSurrogate]; omega
    have hhigh : isHighSurrogate c.toNat = false := by simp [isHighSurrogate]; omega
    rw [List.singleton_append, joinPieces.eq_def]
    simp [hlow, hhigh, utf8_cons, utf8_nil]

/-- A character with a short escape comes back from the byte that the escape stands for. -/
theorem spells_short (c e : Char) (b eb : UInt8) (he : escapeChar c = ['\\', e])
    (hc : String.utf8EncodeChar c = [b]) (heb : String.utf8EncodeChar e = [eb]) (hu : eb ≠ 0x75)
    (hb : escapedByte eb = some b) : Spells [.byte b] [c] := by
  constructor
  · intro acc rest
    have hbytes : utf8 ([c].flatMap escapeChar) ++ rest = 0x5C :: eb :: rest := by
      simp only [List.flatMap_cons, List.flatMap_nil, List.append_nil, he, utf8_cons, utf8_nil, heb]
      rfl
    rw [hbytes, scanString.eq_def]
    simp [hu, hb]
  · intro stop acc rest
    rw [List.singleton_append, joinPieces, utf8_cons, utf8_nil, hc]
    rfl

theorem spells_plain (c : Char) (he : escapeChar c = [c]) (hq : c ≠ '"') (hs : c ≠ '\\')
    (hc : ¬ c.toNat < 0x20) : Spells ((String.utf8EncodeChar c).map .byte) [c] := by
  have hutf8 : utf8 [c] = String.utf8EncodeChar c := by rw [utf8_cons, utf8_nil, List.append_nil]
  constructor
  · intro acc rest
    rw [List.flatMap_cons, List.flatMap_nil, List.append_nil, he, hutf8]
    exact scanString_plain acc _ rest (plain_of_not_escaped c hq hs hc)
  · intro stop acc rest
    rw [joinPieces_bytes, hutf8]

theorem exists_spells_char (c : Char) : ∃ pieces, Spells pieces [c] := by
  -- the cases are those of the escape
  have he : escapeChar c = escapeChar c := rfl
  conv at he => rhs; unfold escapeChar
  split at he
  · exact ⟨_, spells_short _ '"' 0x22 0x22 he rfl rfl (by decide) (by decide)⟩
  · exact ⟨_, spells_short _ '\\' 0x5C 0x5C he rfl rfl (by decide) (by decide)⟩
  · exact ⟨_, spells_short _ 'b' 0x08 0x62 he rfl rfl (by decide) (by decide)⟩
  · exact ⟨_, spells_short _ 'f' 0x0C 0x66 he rfl rfl (by decide) (by decide)⟩
  · exact ⟨_, spells_short _ 'n' 0x0A 0x6E he rfl rfl (by decide) (by decide)⟩
  · exact ⟨_, spells_short _ 'r' 0x0D 0x72 he rfl rfl (by decide) (by decide)⟩
  · exact ⟨_, spells_short _ 't' 0x09 0x74 he rfl rfl (by decide) (by decide)⟩
  · next hq hs _ _ _ _ _ =>
    split at he
    · next hc => exact ⟨_, spells_control c hc he⟩
    · next hc => exact ⟨_, spells_plain c he hq hs hc⟩

theorem exists_spells (cs : List Char) : ∃ pieces, Spells pieces cs := by
  induction cs with
  | nil => exact ⟨[], ⟨fun _ _ => rfl, fun _ _ _ => rfl⟩⟩
  | cons c cs ih =>
    obtain ⟨ps, hps⟩ := exists_spells_char c
    obtain ⟨qs, hqs⟩ := ih
    refine ⟨ps ++ qs, ⟨fun acc rest => ?_, fun stop acc rest => ?_⟩⟩
    · have hc := hps.scan acc (utf8 (cs.flatMap escapeChar) ++ rest)
      rw [List.flatMap_cons, List.flatMap_nil, List.append_nil] at hc
      rw [List.flatMap_cons, utf8_append, List.append_assoc, hc, hqs.scan, List.reverse_append,
        List.append_assoc]
    · have hc := hps.join stop acc (qs ++ rest)
      rw [List.append_assoc, hc, hqs.join, utf8_cons, utf8_cons, utf8_nil, List.append_nil,
        List.reverse_append, List.append_assoc]

/-- The body of a string and its closing quote, as they are printed. -/
theorem printString_eq (s : String) (rest : List UInt8) :
    printString s ++ rest = 0x22 :: (utf8 (s.toList.flatMap escapeChar) ++ 0x22 :: rest) := by
  rw [printString, utf8_append, List.append_assoc, utf8_cons]
  rfl

/-- A printed string is scanned up to its closing quote, and its pieces are its text. -/
theorem exists_scan_printed (s : String) (rest : List UInt8) : ∃ pieces,
    scanString [] (utf8 (s.toList.flatMap escapeChar) ++ 0x22 :: rest) = (pieces, .closed rest) ∧
      stringValue pieces (.closed rest) = .ok s := by
  obtain ⟨pieces, h⟩ := exists_spells s.toList
  refine ⟨pieces, ?_, ?_⟩
  · rw [h.scan, scanString.eq_def]
    simp
  · have hj := h.join (.closed rest) [] []
    rw [List.append_nil, List.append_nil] at hj
    rw [stringValue, hj]
    simp [joinPieces, StringEnd.skipError, decodeUtf8?_utf8]

theorem readString_printed (s : String) (rest : List UInt8) :
    readString (utf8 (s.toList.flatMap escapeChar) ++ 0x22 :: rest) = (.string s, some rest) := by
  obtain ⟨pieces, hscan, hvalue⟩ := exists_scan_printed s rest
  rw [readString, hscan]
  simp [hvalue]

end EchoServer.Json
