import EchoServer.Json.Basic

/-! A numeral without fraction and exponent that fits 64 bits is an integer, save `-0`. Any other is
found quickly rather than exactly: its digits are rounded, and then scaled by a power of ten. -/
namespace EchoServer.Json

structure Numeral where
  negative : Bool
  whole : List Char
  /-- The digits after the point; empty when there is no point. -/
  fraction : List Char
  /-- The sign and the digits of the exponent. -/
  exponent : Option (Bool × List Char)

/-- Extends the word `s` by digits while it stays below `2 ^ 64`; the digits left over. -/
def absorbDigits (s : Nat) : List Char → Nat × List Char
  | [] => (s, [])
  | d :: ds =>
    let s' := s * 10 + (d.toNat - 48)
    if s' < 18446744073709551616 then absorbDigits s' ds else (s, d :: ds)

def power10 (e : Nat) : Binary64 := (Binary64.ofNat (Nat.pow 10 e)).getD .zero

/-- The greatest exponent of a finite power of ten. -/
def maxPower : Nat := 308

/-- `x · 10 ^ e`, dividing by at most `fuel` greatest powers first; `none` when that is too
large. -/
def scaleBy10 (x : Binary64) (e : Int) : Nat → Option Binary64
  | 0 => some .zero
  | fuel + 1 =>
    if e.natAbs ≤ maxPower then
      if 0 ≤ e then x.mul (power10 e.toNat) else x.div (power10 (-e).toNat)
    else if x.isZero then some x
    else if 0 ≤ e then none
    else match x.div (power10 maxPower) with
      | none => none
      | some y => scaleBy10 y (e + maxPower) fuel

/-- The greatest exponent that is looked at. -/
def maxExponent : Nat := 2147483647

/-- The magnitude of a numeral as a binary64 number; `none` when it is too large. -/
def Numeral.magnitude (n : Numeral) : Option Binary64 :=
  let (s, extra) := absorbDigits 0 n.whole
  let (s, dropped) := absorbDigits s n.fraction
  let base : Int := extra.length - ((n.fraction.length : Int) - dropped.length)
  match n.exponent with
  | none => (Binary64.ofNat s).bind (scaleBy10 · base 4)
  | some (negative, ds) =>
    let e := Nat.ofDigitChars 10 ds 0
    if maxExponent < e then (if s ≠ 0 && !negative then none else some .zero)
    else (Binary64.ofNat s).bind (scaleBy10 · (if negative then base - e else base + e) 4)

/-- The integer that a numeral spells, if it is one that is kept exactly. -/
def Numeral.integer? (n : Numeral) : Option WideInt :=
  if n.fraction.isEmpty && n.exponent.isNone then
    let v := Nat.ofDigitChars 10 n.whole 0
    if n.negative then
      if h : 0 < v ∧ v ≤ 9223372036854775808 then some ⟨-v, by omega, by omega⟩ else none
    else if h : v < 18446744073709551616 then some ⟨v, by omega, by omega⟩ else none
  else none

/-- The number that a numeral spells; `none` when it is too large. -/
def Numeral.value (n : Numeral) : Option JsonNumber :=
  match n.integer? with
  | some i => some (.integer i)
  | none => n.magnitude.map fun x => .float (if n.negative then x.neg else x)

end EchoServer.Json
