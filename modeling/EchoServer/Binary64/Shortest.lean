import EchoServer.Binary64

/-! The shortest decimal within the interval of reals that round to a number. The interval has its
ends when the mantissa is even, and the nearer of two decimals wins. -/
namespace EchoServer.Binary64

/-- A positive decimal: `digits · 10 ^ exponent`. -/
structure Decimal where
  digits : Nat
  exponent : Int

/-- The interval that rounds to a number, in quarters of its last place. -/
structure Interval where
  /-- The quarters of the lower end, of the number itself and of the upper end. -/
  lower : Nat
  middle : Nat
  upper : Nat
  /-- Whether the ends belong to the interval. -/
  closed : Bool
  /-- One quarter is `2 ^ exponent`. -/
  exponent : Int

/-- The interval of `x`; below a power of two the neighbour is half as far. -/
def interval (x : Binary64) : Interval :=
  let (m, q) := x.parts
  let gap := if m = fractions && decide (-1074 < q) then 1 else 2
  { lower := 4 * m - gap, middle := 4 * m, upper := 4 * m + 2, closed := m % 2 == 0,
    exponent := q - 2 }

/-- `10 ^ e` as a pair of numerator and denominator. -/
def power10 (e : Int) : Nat × Nat :=
  if 0 ≤ e then (Nat.pow 10 e.toNat, 1) else (1, Nat.pow 10 (-e).toNat)

/-- The largest `e` with `10 ^ e ≤ num / den`, for positive `num` and `den`. -/
def floorLog10 (num den : Nat) : Int :=
  if den ≤ num then ((Nat.toDigits 10 (num / den)).length : Int) - 1
  else
    let k := (Nat.toDigits 10 (den / num)).length
    if den ≤ num * Nat.pow 10 (k - 1) then -((k : Int) - 1) else -(k : Int)

/-- The neighbour of `i` on the grid of `10 ^ e` that lies in `i`, the nearer one of two. -/
def Interval.onGrid? (i : Interval) (e : Int) : Option Nat :=
  let (p, r) := power10 e
  let (a, b) := scaled 1 i.exponent
  -- a grid point `k` stands for `k * p / r`, a quarter for `a / b`
  let unit := a * r
  let grid := p * b
  let k := i.middle * unit / grid
  let inside (n : Nat) : Bool :=
    let v := n * grid
    if i.closed then i.lower * unit ≤ v && v ≤ i.upper * unit
    else i.lower * unit < v && v < i.upper * unit
  let below := i.middle * unit - k * grid
  let above := (k + 1) * grid - i.middle * unit
  if inside k && k != 0 then
    if inside (k + 1) && (decide (above < below) || (above == below && k % 2 == 1)) then
      some (k + 1)
    else some k
  else if inside (k + 1) then some (k + 1) else none

/-- The first of the grids with `n`, `n + 1`, … digits that has a point in `i`. -/
def Interval.search (i : Interval) (top : Int) : Nat → Nat → Decimal
  | _, 0 => ⟨0, 0⟩
  | n, fuel + 1 =>
    match i.onGrid? (top - n) with
    | some k => ⟨k, top - n⟩
    | none => search i top (n + 1) fuel

/-- The shortest decimal that rounds to the magnitude of `x`, which is not zero. -/
def shortest (x : Binary64) : Decimal :=
  let i := x.interval
  let (a, b) := scaled i.middle i.exponent
  i.search (floorLog10 a b) 0 18

/-- How a number is laid out as text. -/
structure Layout where
  /-- Exponents of the leading digit that are written without an exponent part. -/
  positional : Int × Int
  /-- The least number of digits of an exponent part. -/
  exponentDigits : Nat

def dropTrailingZeros (ds : List Char) : List Char :=
  (ds.reverse.dropWhile (· == '0')).reverse

/-- `ds` with zeros in front, to at least `n` digits. -/
def padLeft (n : Nat) (ds : List Char) : List Char :=
  List.replicate (n - ds.length) '0' ++ ds

/-- The text of a magnitude with the digits `ds` and the leading digit at `10 ^ e`. -/
def Layout.place (l : Layout) (ds : List Char) (e : Int) : List Char :=
  if l.positional.1 ≤ e && e ≤ l.positional.2 then
    if e < 0 then '0' :: '.' :: List.replicate ((-e).toNat - 1) '0' ++ ds
    else
      let whole := e.toNat + 1
      let front := ds.take whole ++ List.replicate (whole - ds.length) '0'
      let back := ds.drop whole
      front ++ '.' :: (if back.isEmpty then ['0'] else back)
  else
    let fraction := if ds.length ≤ 1 then [] else '.' :: ds.drop 1
    let sign := if e < 0 then '-' else '+'
    ds.take 1 ++ fraction ++ 'e' :: sign :: padLeft l.exponentDigits (Nat.toDigits 10 e.natAbs)

def Layout.text (l : Layout) (x : Binary64) : List Char :=
  let sign := if x.negative then ['-'] else []
  if x.isZero then sign ++ ['0', '.', '0']
  else
    let d := x.shortest
    let ds := Nat.toDigits 10 d.digits
    sign ++ l.place (dropTrailingZeros ds) (d.exponent + (ds.length - 1 : Nat))

end EchoServer.Binary64
