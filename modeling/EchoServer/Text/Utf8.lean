namespace EchoServer.Text

/-- The text that `bytes` spell, if they are well-formed UTF-8. -/
def decodeUtf8? (bytes : List UInt8) : Option String :=
  String.fromUTF8? ⟨bytes.toArray⟩

/-- What may follow a lead byte: how many continuation bytes, and the range of the first. -/
structure Tail where
  count : Nat
  low : UInt8
  high : UInt8

/-- What may follow the lead byte `b`; `none` if no character starts with it. -/
def tailOf (b : UInt8) : Option Tail :=
  if b < 0x80 then some ⟨0, 0x80, 0xBF⟩
  else if b < 0xC2 then none
  else if b < 0xE0 then some ⟨1, 0x80, 0xBF⟩
  else if b = 0xE0 then some ⟨2, 0xA0, 0xBF⟩
  else if b = 0xED then some ⟨2, 0x80, 0x9F⟩
  else if b < 0xF0 then some ⟨2, 0x80, 0xBF⟩
  else if b = 0xF0 then some ⟨3, 0x90, 0xBF⟩
  else if b < 0xF4 then some ⟨3, 0x80, 0xBF⟩
  else if b = 0xF4 then some ⟨3, 0x80, 0x8F⟩
  else none

/-- How many bytes in front can continue a character that still needs `count` of them. -/
def continued : Nat → UInt8 → UInt8 → List UInt8 → Nat
  | 0, _, _, _ => 0
  | _ + 1, _, _, [] => 0
  | n + 1, low, high, b :: bs =>
    if low ≤ b && b ≤ high then continued n 0x80 0xBF bs + 1 else 0

def replacement : Char := '\ufffd'

/-- The characters of `bytes`, read in at most `fuel` parts. -/
def lossyChars : Nat → List UInt8 → List Char
  | 0, _ => []
  | _, [] => []
  | fuel + 1, b :: bs =>
    match tailOf b with
    | none => replacement :: lossyChars fuel bs
    | some t =>
      let n := continued t.count t.low t.high bs
      let part := if n = t.count then decodeUtf8? (b :: bs.take n) else none
      (match part with | some s => s.toList | none => [replacement]) ++
        lossyChars fuel (bs.drop n)

/-- The text of `bytes`, each maximal ill-formed part being replaced. -/
def lossy (bytes : List UInt8) : String :=
  String.ofList (lossyChars bytes.length bytes)

end EchoServer.Text
