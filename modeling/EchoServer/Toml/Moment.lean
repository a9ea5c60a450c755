import EchoServer.Time.Calendar
import EchoServer.Toml.Number

namespace EchoServer.Toml

open Time (Date)

/-- A number of exactly `n` decimal digits. -/
def fixed? (n : Nat) (cs : List Char) : Option (Nat × List Char) :=
  let ds := cs.take n
  if ds.length = n && ds.all Char.isDigit then some (ofDigits 10 ds, cs.drop n) else none

/-- What is left after the character `c`. -/
def after? (c : Char) : List Char → Option (List Char)
  | d :: cs => if d = c then some cs else none
  | [] => none

/-- What is left after a date that the calendar has. -/
def date? (cs : List Char) : Option (List Char) := do
  let (year, cs) ← fixed? 4 cs
  let cs ← after? '-' cs
  let (month, cs) ← fixed? 2 cs
  let cs ← after? '-' cs
  let (day, cs) ← fixed? 2 cs
  if Date.IsValid ⟨year, month, day⟩ then some cs else none

/-- What is left after the hour and the minute. -/
def clock? (cs : List Char) : Option (List Char) := do
  let (hour, cs) ← fixed? 2 cs
  let cs ← after? ':' cs
  let (minute, cs) ← fixed? 2 cs
  if hour ≤ 23 ∧ minute ≤ 59 then some cs else none

/-- What is left after a time of day; its last second may be a leap second. -/
def time? (cs : List Char) : Option (List Char) := do
  let cs ← clock? cs
  let cs ← after? ':' cs
  let (second, cs) ← fixed? 2 cs
  if 60 < second then none
  else match cs with
    | '.' :: rest =>
      if (rest.head?.any Char.isDigit) then some (rest.dropWhile Char.isDigit) else none
    | _ => some cs

/-- What is left after an offset, if there is one. -/
def offset? : List Char → Option (List Char)
  | 'Z' :: cs => some cs
  | 'z' :: cs => some cs
  | '+' :: cs => clock? cs
  | '-' :: cs => clock? cs
  | cs => some cs

/-- What is left after a date and what follows it. A blank that no time follows is not part of
it. -/
def dateTime? (cs : List Char) : Option (List Char) :=
  match date? cs with
  | none => none
  | some rest => match rest with
    | c :: after =>
      if c = 'T' || c = 't' || c = ' ' then
        match time? after with
        | some rest => offset? rest
        | none => some (c :: after)
      else some (c :: after)
    | [] => some []

def moment? (cs : List Char) : Option (Value × List Char) :=
  ((dateTime? cs).orElse fun _ => time? cs).map fun rest => (.moment (spelling cs rest), rest)

end EchoServer.Toml
