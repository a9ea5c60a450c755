import EchoServer.Json.Draft
import EchoServer.Json.Numeral
import EchoServer.Text.Utf8

namespace EchoServer.Json

/-- The bytes that may stand between tokens. -/
def isSpace (b : UInt8) : Bool := b == 0x20 || b == 0x09 || b == 0x0A || b == 0x0D

/-- `bs` without leading space. -/
def dropSpace (bs : List UInt8) : List UInt8 := bs.dropWhile isSpace

/-- A draft and the bytes after it, or a draft at whose end reading had to stop. -/
abbrev Reading : Type := Draft × Option (List UInt8)

/-- A draft that is nothing but a fault at which reading stops. -/
def stopped (kept skipped : SyntaxError) (opening : Opening) : Reading :=
  (.fault ⟨kept, some skipped, opening⟩, none)

/-- Reads the rest of a word that stands for `d`. -/
def readWord (d : Draft) : List Char → List UInt8 → Reading
  | [], bs => (d, some bs)
  | _ :: _, [] => stopped .endInValue .endInValue .other
  | c :: cs, b :: bs =>
    if b.toNat = c.toNat then readWord d cs bs
    else stopped .expectedWord .expectedWord .other

inductive Piece
  | byte (b : UInt8)
  /-- A UTF-16 code unit, by its number. -/
  | unit (n : Nat)

inductive StringEnd
  | closed (rest : List UInt8)
  | endOfText
  | controlCharacter
  | unknownEscape
  | badDigits

def hexValue (b : UInt8) : Option Nat :=
  let n := b.toNat
  if 48 ≤ n && n ≤ 57 then some (n - 48)
  else if 65 ≤ n && n ≤ 70 then some (n - 55)
  else if 97 ≤ n && n ≤ 102 then some (n - 87)
  else none

def hexValue4 (a b c d : UInt8) : Option Nat := do
  let a ← hexValue a
  let b ← hexValue b
  let c ← hexValue c
  let d ← hexValue d
  pure (((a * 16 + b) * 16 + c) * 16 + d)

/-- The byte that a one-letter escape stands for. -/
def escapedByte (b : UInt8) : Option UInt8 :=
  if b = 0x22 || b = 0x5C || b = 0x2F then some b
  else if b = 0x62 then some 0x08
  else if b = 0x66 then some 0x0C
  else if b = 0x6E then some 0x0A
  else if b = 0x72 then some 0x0D
  else if b = 0x74 then some 0x09
  else none

/-- The pieces of a string after its opening quote, behind those of `acc` in reverse. -/
def scanString (acc : List Piece) : List UInt8 → List Piece × StringEnd
  | [] => (acc.reverse, .endOfText)
  | b :: bs =>
    if b = 0x22 then (acc.reverse, .closed bs)
    else if b = 0x5C then
      match bs with
      | [] => (acc.reverse, .endOfText)
      | e :: bs =>
        if e = 0x75 then
          match bs with
          | h1 :: h2 :: h3 :: h4 :: bs =>
            match hexValue4 h1 h2 h3 h4 with
            | some n => scanString (.unit n :: acc) bs
            | none => (acc.reverse, .badDigits)
          | _ => (acc.reverse, .endOfText)
        else
          match escapedByte e with
          | some c => scanString (.byte c :: acc) bs
          | none => (acc.reverse, .unknownEscape)
    else if b < 0x20 then (acc.reverse, .controlCharacter)
    else scanString (.byte b :: acc) bs

/-- What a reader reports who skips a string. -/
def StringEnd.skipError : StringEnd → Option SyntaxError
  | closed _ => none
  | endOfText => some .endInString
  | controlCharacter => some .controlCharacter
  | unknownEscape => some .invalidEscape
  | badDigits => some .invalidEscape

/-- What a reader reports who needs a second code unit and meets the end of the string. -/
def StringEnd.unpairedError : StringEnd → SyntaxError
  | endOfText => .endInString
  | badDigits => .invalidEscape
  | _ => .unpairedEscape

def isHighSurrogate (n : Nat) : Bool := 0xD800 ≤ n && n ≤ 0xDBFF

def isLowSurrogate (n : Nat) : Bool := 0xDC00 ≤ n && n ≤ 0xDFFF

/-- The character of a surrogate pair. -/
def pairedChar (high low : Nat) : Char :=
  Char.ofNat (0x10000 + (high - 0xD800) * 0x400 + (low - 0xDC00))

/-- The bytes of pieces, behind those of `acc` in reverse; code units have to pair up. -/
def joinPieces (stop : StringEnd) (acc : List UInt8) :
    List Piece → Except SyntaxError (List UInt8)
  | [] => match stop.skipError with
    | none => .ok acc.reverse
    | some e => .error e
  | .byte b :: rest => joinPieces stop (b :: acc) rest
  | .unit n :: rest =>
    if isLowSurrogate n then .error .loneSurrogate
    else if isHighSurrogate n then
      match rest with
      | .unit m :: rest =>
        if isLowSurrogate m then
          joinPieces stop ((String.utf8EncodeChar (pairedChar n m)).reverse ++ acc) rest
        else .error .loneSurrogate
      | .byte _ :: _ => .error .unpairedEscape
      | [] => .error stop.unpairedError
    else joinPieces stop ((String.utf8EncodeChar (Char.ofNat n)).reverse ++ acc) rest

def stringValue (pieces : List Piece) (stop : StringEnd) : Except SyntaxError String :=
  match joinPieces stop [] pieces with
  | .error e => .error e
  | .ok bytes => match Text.decodeUtf8? bytes with
    | some s => .ok s
    | none => .error .invalidText

/-- Reads a string after its opening quote. -/
def readString (bs : List UInt8) : Reading :=
  let (pieces, stop) := scanString [] bs
  let rest := match stop with | .closed rest => some rest | _ => none
  match stringValue pieces stop with
  | .ok s => (.string s, rest)
  | .error e => (.fault ⟨e, stop.skipError, .quote⟩, rest)

def isDigit (b : UInt8) : Bool := 0x30 ≤ b && b ≤ 0x39

/-- The digits in front of `bs`, and what follows them. -/
def spanDigits (bs : List UInt8) : List Char × List UInt8 :=
  ((bs.takeWhile isDigit).map fun b => Char.ofNat b.toNat, bs.dropWhile isDigit)

/-- A number that breaks off before `bs`. -/
def brokenNumber (bs : List UInt8) : Reading :=
  stopped (if bs.isEmpty then .endInValue else .invalidNumber) .invalidNumber .other

/-- The draft of a complete number before `bs`. -/
def numberReading (n : Numeral) (bs : List UInt8) : Reading :=
  match n.value with
  | some v => (.number v, some bs)
  | none => (.fault ⟨.numberOutOfRange, none, .other⟩, some bs)

/-- Reads the exponent of a number, if there is one. -/
def readExponent (n : Numeral) (bs : List UInt8) : Reading :=
  match bs with
  | [] => numberReading n []
  | b :: rest =>
    if b = 0x65 || b = 0x45 then
      let (negative, rest) := match rest with
        | c :: rest' => if c = 0x2B then (false, rest') else if c = 0x2D then (true, rest')
          else (false, rest)
        | [] => (false, rest)
      let (ds, rest) := spanDigits rest
      if ds.isEmpty then brokenNumber rest
      else numberReading { n with exponent := some (negative, ds) } rest
    else numberReading n bs

/-- Reads the fraction and the exponent of a number, as far as there are any. -/
def readFraction (n : Numeral) (bs : List UInt8) : Reading :=
  match bs with
  | [] => numberReading n []
  | b :: rest =>
    if b = 0x2E then
      let (ds, rest) := spanDigits rest
      if ds.isEmpty then brokenNumber rest else readExponent { n with fraction := ds } rest
    else readExponent n bs

/-- Reads a number after its sign. A leading zero stands alone before the point. -/
def readNumber (negative : Bool) (bs : List UInt8) : Reading :=
  let (ds, rest) := spanDigits bs
  match ds with
  | [] => brokenNumber rest
  | d :: more =>
    if d = '0' && !more.isEmpty then stopped .invalidNumber .invalidNumber .other
    else readFraction { negative, whole := ds, fraction := [], exponent := none } rest

/-- Reads a value that is neither a string nor a container. -/
def readScalar (b : UInt8) (bs : List UInt8) : Reading :=
  if b = 0x6E then readWord .null ['u', 'l', 'l'] bs
  else if b = 0x74 then readWord (.bool true) ['r', 'u', 'e'] bs
  else if b = 0x66 then readWord (.bool false) ['a', 'l', 's', 'e'] bs
  else if b = 0x2D then readNumber true bs
  else if isDigit b then readNumber false (b :: bs)
  else stopped .expectedValue .expectedValue .other

mutual

/-- Reads a value after optional space. -/
def readValue : Nat → List UInt8 → Reading
  | 0, _ => stopped .endInValue .endInValue .nothing
  | fuel + 1, bs =>
    match dropSpace bs with
    | [] => stopped .endInValue .endInValue .nothing
    | b :: rest =>
      if b = 0x7B then readMembers fuel [] rest
      else if b = 0x5B then readItems fuel [] rest
      else if b = 0x22 then readString rest
      else readScalar b rest

/-- Reads what is left of an array whose first items are those of `acc` in reverse. -/
def readItems : Nat → List Draft → List UInt8 → Reading
  | 0, acc, _ => (.array acc.reverse (some (.stop .endInList .nothing)), none)
  | fuel + 1, acc, bs =>
    match dropSpace bs with
    | [] => (.array acc.reverse (some (.stop .endInList .nothing)), none)
    | b :: rest =>
      if b = 0x5D then (.array acc.reverse none, some rest)
      else if acc.isEmpty then readItem fuel acc (b :: rest)
      else if b = 0x2C then
        match dropSpace rest with
        | [] => (.array acc.reverse (some (.stop .endInValue .nothing)), none)
        | c :: rest =>
          if c = 0x5D then
            (.array acc.reverse (some ⟨.trailingComma, some .expectedValue, .nothing⟩), none)
          else readItem fuel acc (c :: rest)
      else (.array acc.reverse (some (.stop .expectedListSeparator .nothing)), none)

/-- Reads the next item of an array, and what is left after it. -/
def readItem : Nat → List Draft → List UInt8 → Reading
  | 0, acc, _ => (.array acc.reverse (some (.stop .endInValue .nothing)), none)
  | fuel + 1, acc, bs =>
    match readValue fuel bs with
    | (d, none) => (.array (d :: acc).reverse none, none)
    | (d, some rest) => readItems fuel (d :: acc) rest

/-- Reads what is left of an object whose first members are those of `acc` in reverse. -/
def readMembers : Nat → List (Key × Draft) → List UInt8 → Reading
  | 0, acc, _ => (.object acc.reverse (some (.stop .endInObject .nothing)), none)
  | fuel + 1, acc, bs =>
    match dropSpace bs with
    | [] => (.object acc.reverse (some (.stop .endInObject .nothing)), none)
    | b :: rest =>
      if b = 0x7D then (.object acc.reverse none, some rest)
      else if acc.isEmpty then readMember fuel acc (b :: rest)
      else if b = 0x2C then
        match dropSpace rest with
        | [] => (.object acc.reverse (some ⟨.endInValue, some .endInObject, .nothing⟩), none)
        | c :: rest =>
          if c = 0x7D then
            (.object acc.reverse (some ⟨.trailingComma, some .keyNotString, .nothing⟩), none)
          else readMember fuel acc (c :: rest)
      else (.object acc.reverse (some (.stop .expectedObjectSeparator .nothing)), none)

/-- Reads the next member of an object, and what is left after it. -/
def readMember : Nat → List (Key × Draft) → List UInt8 → Reading
  | 0, acc, _ => (.object acc.reverse (some (.stop .endInObject .nothing)), none)
  | _ + 1, acc, [] => (.object acc.reverse (some (.stop .endInObject .nothing)), none)
  | fuel + 1, acc, b :: bs =>
    if b = 0x22 then
      let (pieces, stop) := scanString [] bs
      let key := match stringValue pieces stop with | .ok s => Key.name s | .error e => .flawed e
      match stop with
      | .closed rest =>
        match dropSpace rest with
        | [] =>
          (.object ((key, .fault (.stop .endInObject .nothing)) :: acc).reverse none, none)
        | c :: rest =>
          if c = 0x3A then
            match readValue fuel rest with
            | (d, none) => (.object ((key, d) :: acc).reverse none, none)
            | (d, some rest) => readMembers fuel ((key, d) :: acc) rest
          else
            (.object ((key, .fault (.stop .expectedColon .nothing)) :: acc).reverse none, none)
      | _ =>
        let e := stop.skipError.getD .endInString
        (.object ((key, .fault (.stop e .nothing)) :: acc).reverse none, none)
    else (.object ((.misplaced, (readValue fuel (b :: bs)).1) :: acc).reverse none, none)

end

/-- A whole text: the draft of its value, and whether something other than space follows it. -/
structure Document where
  draft : Draft
  trailing : Bool

def readDocument (bs : List UInt8) : Document :=
  match readValue (3 * bs.length + 3) bs with
  | (draft, none) => { draft, trailing := false }
  | (draft, some rest) => { draft, trailing := !(dropSpace rest).isEmpty }

end EchoServer.Json
