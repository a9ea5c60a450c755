import EchoServer.Json.Printer
import EchoServer.Text.Utf8

namespace EchoServer

open Json (utf8)

theorem utf8_nil : utf8 [] = [] := rfl

theorem utf8_cons (c : Char) (cs : List Char) :
    utf8 (c :: cs) = String.utf8EncodeChar c ++ utf8 cs := List.flatMap_cons

theorem utf8_append (cs ds : List Char) : utf8 (cs ++ ds) = utf8 cs ++ utf8 ds :=
  List.flatMap_append

theorem decodeUtf8?_utf8 (cs : List Char) :
    Text.decodeUtf8? (utf8 cs) = some (String.ofList cs) := by
  have hb : (⟨(utf8 cs).toArray⟩ : ByteArray) = cs.utf8Encode := by
    rw [List.utf8Encode, ← List.data_toByteArray]
    rfl
  unfold Text.decodeUtf8?
  rw [hb, String.fromUTF8?, dif_pos ByteArray.isValidUTF8_utf8Encode]
  rfl

theorem utf8EncodeChar_of_ascii (c : Char) (h : c.toNat < 0x80) :
    String.utf8EncodeChar c = [UInt8.ofNat c.toNat] := by
  fun_cases String.utf8EncodeChar c with
  | case1 v hv => rfl
  | case2 v hv => exact absurd (show v < 0x80 from h) (by omega)
  | case3 v hv => exact absurd (show v < 0x80 from h) (by omega)
  | case4 v hv => exact absurd (show v < 0x80 from h) (by omega)

theorem utf8EncodeChar_above_ascii (c : Char) (h : 0x80 ≤ c.toNat) (b : UInt8)
    (hb : b ∈ String.utf8EncodeChar c) : 0x80 ≤ b := by
  have hoff (n : Nat) (hn : 128 ≤ n) (hlt : n < 256) : (0x80 : UInt8) ≤ UInt8.ofNat n := by
    rw [UInt8.le_iff_toNat_le, UInt8.toNat_ofNat_of_lt' hlt]
    exact hn
  revert hb
  fun_cases String.utf8EncodeChar c with
  | case1 v hv => exact absurd (show 0x80 ≤ v from h) (by omega)
  | case2 v _ hv =>
    simp only [List.mem_cons, List.not_mem_nil, or_false]
    rintro (rfl | rfl) <;> exact hoff _ (by omega) (by omega)
  | case3 v _ _ hv =>
    simp only [List.mem_cons, List.not_mem_nil, or_false]
    rintro (rfl | rfl | rfl) <;> exact hoff _ (by omega) (by omega)
  | case4 v _ _ hv =>
    simp only [List.mem_cons, List.not_mem_nil, or_false]
    rintro (rfl | rfl | rfl | rfl) <;> exact hoff _ (by omega) (by omega)

end EchoServer
