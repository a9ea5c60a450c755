import EchoServer.Status
import EchoServer.Text.Count

namespace EchoServer

/-- The words `start` to `stop`, and the token of the page behind them. -/
structure Page where
  start : Nat
  stop : Nat
  /-- Empty on the last page. -/
  nextToken : String
  deriving DecidableEq

namespace Page

def tokenOf (index : Nat) : String := String.ofList (Nat.toDigits 10 index)

def negativeSize : Status :=
  .of .invalidArgument "The page size provided must not be negative."

def badToken (token : String) (total : Nat) : Status :=
  .of .invalidArgument ("Invalid page token: " ++ token ++
    ". Token must be within the range [0, " ++ tokenOf total ++ ")")

/-- The index that a token names among `total` words. -/
def startOf (total : Nat) (token : String) : Except Status Nat :=
  if token.isEmpty then .ok 0
  else match Text.countOf? token with
    | some index => if index < total then .ok index else .error (badToken token total)
    | none => .error (badToken token total)

/-- The page of at most `size` words from `start`; size zero means all words. -/
def ofStart (total size start : Nat) : Page :=
  let stop := min (start + if size = 0 then total else size) total
  { start, stop, nextToken := if stop < total then tokenOf stop else "" }

/-- The page of `total` words that a size and a token select. -/
def select (total : Nat) (size : Int) (token : String) : Except Status Page :=
  if size < 0 then .error negativeSize
  else (startOf total token).map (ofStart total size.toNat)

/-- The part of `items` on the page. -/
def slice {α : Type} (p : Page) (items : List α) : List α :=
  (items.drop p.start).take (p.stop - p.start)

end Page
end EchoServer
