import EchoServer.Binary64
import EchoServer.Toml.Lexeme

namespace EchoServer.Toml

/-- Digits to the base `radix`, and what is left; single underscores between digits are left
out. -/
def moreDigits (radix : Nat) : List Char → List Char × List Char
  | '_' :: d :: cs =>
    if isDigitOf radix d then
      let (ds, rest) := moreDigits radix cs
      (d :: ds, rest)
    else ([], '_' :: d :: cs)
  | d :: cs =>
    if isDigitOf radix d then
      let (ds, rest) := moreDigits radix cs
      (d :: ds, rest)
    else ([], d :: cs)
  | [] => ([], [])

/-- Digits, at least one. -/
def digits? (radix : Nat) : List Char → Option (List Char × List Char)
  | [] => none
  | d :: cs =>
    if isDigitOf radix d then
      let (ds, rest) := moreDigits radix cs
      some (d :: ds, rest)
    else none

/-- The digits of a decimal number before its point: zero has no digits behind it. -/
def wholeDigits? : List Char → Option (List Char × List Char)
  | '0' :: cs => some (['0'], cs)
  | cs => digits? 10 cs

/-- An optional sign; the flag says whether it is a minus. -/
def takeSign : List Char → Bool × List Char
  | '+' :: cs => (false, cs)
  | '-' :: cs => (true, cs)
  | cs => (false, cs)

/-- The integer of a sign and a magnitude, if it fits. -/
def integer? (negative : Bool) (magnitude : Nat) : Option Value :=
  if negative then
    if magnitude ≤ 9223372036854775808 then some (.integer (Int64.ofInt (-magnitude))) else none
  else if magnitude < 9223372036854775808 then some (.integer (Int64.ofNat magnitude)) else none

/-- Whether `m · 10 ^ e` is too large for a binary64 number. A magnitude of more than 309 digits
is, and one of fewer is not. -/
def isHuge (m : Nat) (e : Int) : Bool :=
  let size := (Nat.toDigits 10 m).length + e
  if m = 0 || size < 309 then false
  else if 309 < size then true
  else if 0 ≤ e then (Binary64.ofQuotient (m * Nat.pow 10 e.toNat) 1).isNone
  else (Binary64.ofQuotient m (Nat.pow 10 (-e).toNat)).isNone

/-- The exponent of a float, zero if there is none. -/
def exponent? : List Char → Option (Int × List Char)
  | c :: cs =>
    if c = 'e' || c = 'E' then
      let (negative, cs) := takeSign cs
      (digits? 10 cs).map fun (ds, rest) =>
        let e : Int := ofDigits 10 ds
        (if negative then -e else e, rest)
    else some (0, c :: cs)
  | [] => some (0, [])

/-- What is read when `rest` is left of `cs`. -/
def spelling (cs rest : List Char) : List Char := cs.take (cs.length - rest.length)

/-- A decimal number `cs` of which `body` is left after the sign. A float that rounds to infinity
is refused if it is positive. -/
def decimal? (negative : Bool) (cs body : List Char) : Option (Value × List Char) :=
  match wholeDigits? body with
  | none => none
  | some (whole, rest) =>
    let float (fraction rest : List Char) : Option (Value × List Char) :=
      (exponent? rest).bind fun (e, rest) =>
        if !negative && isHuge (ofDigits 10 (whole ++ fraction)) (e - fraction.length) then none
        else some (.float (spelling cs rest), rest)
    match rest with
    | '.' :: rest => (digits? 10 rest).bind fun (fraction, rest) => float fraction rest
    | 'e' :: _ => float [] rest
    | 'E' :: _ => float [] rest
    | _ => (integer? negative (ofDigits 10 whole)).map (·, rest)

/-- A number to another base than ten, after what names the base. -/
def radix? (radix : Nat) (cs : List Char) : Option (Value × List Char) :=
  (digits? radix cs).bind fun (ds, rest) => (integer? false (ofDigits radix ds)).map (·, rest)

def number? : List Char → Option (Value × List Char)
  | '0' :: 'x' :: cs => radix? 16 cs
  | '0' :: 'o' :: cs => radix? 8 cs
  | '0' :: 'b' :: cs => radix? 2 cs
  | cs =>
    let (negative, body) := takeSign cs
    match body with
    | 'i' :: 'n' :: 'f' :: rest => some (.float (spelling cs rest), rest)
    | 'n' :: 'a' :: 'n' :: rest => some (.float (spelling cs rest), rest)
    | _ => decimal? negative cs body

end EchoServer.Toml
