import EchoServer.Text.Blank
import EchoServer.Time.Timestamp

namespace EchoServer.Time

/-- Why a text is no timestamp. -/
inductive TimeError
  | outOfRange
  | invalid
  | tooShort
  | tooLong
  | impossible
  deriving DecidableEq

def TimeError.message : TimeError → String
  | outOfRange => "input is out of range"
  | invalid => "input contains invalid characters"
  | tooShort => "premature end of input"
  | tooLong => "trailing input"
  | impossible => "no possible date and time matching input"

namespace Rfc3339

open Text

/-- A reader of a front part of a text; it returns the rest too. -/
abbrev Scan (α : Type) := List Char → Except TimeError (α × List Char)

/-- The largest number that a field is counted in. -/
def fieldLimit : Nat := 9223372036854775808

/-- A number of at least one and at most `width` digits; `none` is no bound on the digits. -/
def scanNumber (width : Option Nat) : Scan Nat := fun cs =>
  let ds := (match width with | none => cs | some w => cs.take w).takeWhile Char.isDigit
  if ds.isEmpty then .error (if cs.isEmpty then .tooShort else .invalid)
  else
    let n := Nat.ofDigitChars 10 ds 0
    if fieldLimit ≤ n then .error .outOfRange else .ok (n, cs.drop ds.length)

/-- A number of one or two digits after blanks, between `low` and `high`. -/
def scanField (low high : Nat) : Scan Nat := fun cs => do
  let (n, cs) ← scanNumber (some 2) (dropBlanks cs)
  if low ≤ n && n ≤ high then .ok (n, cs) else .error .outOfRange

/-- A year after blanks: four digits at most, or any number after a sign. -/
def scanYear : Scan Int := fun cs => do
  let (year, cs) ← match dropBlanks cs with
    | '-' :: cs => do
      let (n, cs) ← scanNumber none cs
      pure (-(n : Int), cs)
    | '+' :: cs => do
      let (n, cs) ← scanNumber none cs
      pure ((n : Int), cs)
    | cs => do
      let (n, cs) ← scanNumber (some 4) cs
      pure ((n : Int), cs)
  if -2147483648 ≤ year && year < 2147483648 then .ok (year, cs) else .error .outOfRange

def scanChar (c : Char) : Scan Unit
  | [] => .error .tooShort
  | d :: cs => if d = c then .ok ((), cs) else .error .invalid

/-- The nanoseconds of an optional fraction; digits past the ninth are dropped. -/
def scanFraction : Scan Nat
  | '.' :: cs => do
    let (n, rest) ← scanNumber (some 9) cs
    let digits := cs.length - rest.length
    pure (n * Nat.pow 10 (9 - digits), rest.dropWhile Char.isDigit)
  | cs => .ok (0, cs)

/-- The next two bytes of the text as a pair of characters; a character beyond ASCII fills both. -/
def twoBytes : List Char → Except TimeError (Char × Char)
  | [] => .error .tooShort
  | [c] => if c.toNat < 0x80 then .error .tooShort else .ok (c, c)
  | c :: d :: _ => .ok (c, d)

/-- A number of exactly two digits, the first of them below `bound`. -/
def scanPair (bound : Nat) : Scan Nat := fun cs => do
  let (c, d) ← twoBytes cs
  if c.isDigit && d.isDigit then
    if c.toNat - 48 < bound then pure ((c.toNat - 48) * 10 + (d.toNat - 48), cs.drop 2)
    else .error .outOfRange
  else .error .invalid

/-- The minutes of an offset, after its colon. -/
def scanOffsetRest (negative : Bool) : Scan Int := fun cs => do
  let (hours, cs) ← scanPair 10 cs
  let (minutes, cs) ← scanPair 6 (cs.dropWhile fun c => c == ':' || isBlank c)
  let seconds : Int := hours * 3600 + minutes * 60
  pure (if negative then -seconds else seconds, cs)

/-- The seconds by which an offset is ahead of UTC. -/
def scanOffset : Scan Int := fun cs =>
  if (cs.take 3).map Char.toLower = ['u', 't', 'c'] then .ok (0, cs.drop 3)
  else match cs with
    | [] => .error .tooShort
    | c :: rest =>
      if c = 'Z' ∨ c = 'z' then .ok (0, rest)
      else if c = '+' then scanOffsetRest false rest
      else if c = '-' ∨ c = '\u2212' then scanOffsetRest true rest
      else .error .invalid

/-- What a text of a timestamp gives. -/
structure Fields where
  date : Date
  hour : Nat
  minute : Nat
  second : Nat
  nanos : Nat
  offset : Int

def scanFields : Scan Fields := fun cs => do
  let (year, cs) ← scanYear cs
  let (_, cs) ← scanChar '-' (dropBlanks cs)
  let (month, cs) ← scanField 1 12 cs
  let (_, cs) ← scanChar '-' (dropBlanks cs)
  let (day, cs) ← scanField 1 31 cs
  let cs ← match cs with
    | [] => .error .tooShort
    | c :: cs => if c = 'T' ∨ c = 't' ∨ c = ' ' then .ok cs else .error .invalid
  let (hour, cs) ← scanField 0 23 cs
  let (_, cs) ← scanChar ':' (dropBlanks cs)
  let (minute, cs) ← scanField 0 59 cs
  let (_, cs) ← scanChar ':' (dropBlanks cs)
  let (second, cs) ← scanField 0 60 cs
  let (nanos, cs) ← scanFraction cs
  let (offset, cs) ← scanOffset (dropBlanks cs)
  pure ({ date := ⟨year, month, day⟩, hour, minute, second, nanos, offset }, cs)

/-- Whether the calendar spans the year of a date. -/
def yearInRange (year : Int) : Bool := -262143 ≤ year && year ≤ 262142

/-- The point in time that fields name; second 60 is a leap second. -/
def Fields.toTimestamp (f : Fields) : Except TimeError Timestamp :=
  if yearInRange f.date.year && decide f.date.IsValid then
    if -86400 < f.offset && f.offset < 86400 then
      let leap := f.second == 60
      let second := if leap then 59 else f.second
      let seconds := f.date.toDays * 86400 + (f.hour * 3600 + f.minute * 60 + second : Nat)
      let nanos := if leap then nanosPerSecond + f.nanos else f.nanos
      match Timestamp.ofParts? (seconds - f.offset) nanos with
      | some t => .ok t
      | none => .error .impossible
    else .error .outOfRange
  else .error .outOfRange

/-- The point in time that a text names. -/
def read (cs : List Char) : Except TimeError Timestamp := do
  let (fields, rest) ← scanFields cs
  if (dropBlanks rest).isEmpty then fields.toTimestamp else .error .tooLong

/-- The last `width` digits of `n`, with zeros in front. -/
def padded (width n : Nat) : List Char :=
  let ds := Nat.toDigits 10 n
  List.replicate (width - ds.length) '0' ++ ds

/-- The text of a year: four digits, and a sign outside of `0` to `9999`. -/
def writeYear (year : Int) : List Char :=
  if year < 0 then '-' :: padded 4 year.natAbs
  else if 9999 < year then '+' :: padded 4 year.natAbs
  else padded 4 year.natAbs

/-- The text of the nanoseconds of a second. -/
def writeFraction (nanos : Nat) : List Char :=
  if nanos = 0 then []
  else if nanos % 1000000 = 0 then '.' :: padded 3 (nanos / 1000000)
  else if nanos % 1000 = 0 then '.' :: padded 6 (nanos / 1000)
  else '.' :: padded 9 nanos

/-- The text of a point in time, in UTC. -/
def write (t : Timestamp) : List Char :=
  let date := Date.ofDays (t.seconds / 86400)
  let second := (t.seconds % 86400).toNat
  let leap := decide (nanosPerSecond ≤ t.nanos)
  let nanos := if leap then t.nanos - nanosPerSecond else t.nanos
  writeYear date.year ++ '-' :: padded 2 date.month ++ '-' :: padded 2 date.day ++ 'T' ::
    padded 2 (second / 3600) ++ ':' :: padded 2 (second / 60 % 60) ++ ':' ::
    padded 2 (second % 60 + if leap then 1 else 0) ++ writeFraction nanos ++ ['Z']

end Rfc3339
end EchoServer.Time
