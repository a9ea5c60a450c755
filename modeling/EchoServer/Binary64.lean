/-! Finite binary64 numbers in exact arithmetic. The magnitude is its bit pattern, so the order of
the patterns is the order of the magnitudes, and rounding up carries into the exponent. -/
namespace EchoServer

/-- The number of bit patterns of one exponent, `2 ^ 52`. -/
def Binary64.fractions : Nat := 4503599627370496

/-- The number of bit patterns of finite magnitudes. -/
def Binary64.patterns : Nat := 2047 * Binary64.fractions

/-- A finite binary64 number. -/
structure Binary64 where
  /-- The sign, which zero has too. -/
  negative : Bool
  /-- The bit pattern of the magnitude. -/
  bits : Fin Binary64.patterns
  deriving DecidableEq

namespace Binary64

/-- The magnitude as `(m, q)`, for `m · 2 ^ q`. -/
def parts (x : Binary64) : Nat × Int :=
  let field : Nat := x.bits.val / fractions
  let fraction : Nat := x.bits.val % fractions
  if field = 0 then (fraction, -1074) else (fractions + fraction, (field : Int) - 1075)

def zero : Binary64 := ⟨false, ⟨0, by decide⟩⟩

/-- Whether `x` is zero of either sign. -/
def isZero (x : Binary64) : Bool := x.bits.val == 0

def neg (x : Binary64) : Binary64 := { x with negative := !x.negative }

/-- `m · 2 ^ q` as a pair of numerator and denominator. -/
def scaled (m : Nat) (q : Int) : Nat × Nat :=
  if 0 ≤ q then (m * Nat.pow 2 q.toNat, 1) else (m, Nat.pow 2 (-q).toNat)

/-- The integer nearest to `num / den`, a half going to the even neighbour. -/
def roundDiv (num den : Nat) : Nat :=
  let k := num / den
  let twice := 2 * (num % den)
  if twice < den then k else if den < twice then k + 1 else k + k % 2

/-- The largest `e` with `2 ^ e ≤ num / den`, for positive `num` and `den`. -/
def floorLog (num den : Nat) : Int :=
  let e : Int := num.log2 - den.log2
  let (a, b) := scaled den e
  if num * b < a then e - 1 else e

/-- The number nearest to `num / den`, a tie going to the even pattern; `none` when that is
infinite. -/
def ofQuotient (num den : Nat) : Option Binary64 :=
  if num = 0 then some zero
  else
    let q := max (-1074) (floorLog num den - 52)
    let (a, b) := scaled den q
    let pattern := (q + 1074).toNat * fractions + roundDiv (num * b) a
    if h : pattern < patterns then some ⟨false, ⟨pattern, h⟩⟩ else none

def ofNat (n : Nat) : Option Binary64 := ofQuotient n 1

/-- The product of two magnitudes, rounded. -/
def mul (x y : Binary64) : Option Binary64 :=
  let (a, b) := scaled (x.parts.1 * y.parts.1) (x.parts.2 + y.parts.2)
  ofQuotient a b

/-- The quotient of two magnitudes, rounded; the divisor is not zero. -/
def div (x y : Binary64) : Option Binary64 :=
  let (a, b) := scaled x.parts.1 (x.parts.2 - y.parts.2)
  ofQuotient a (b * y.parts.1)

end Binary64
end EchoServer
