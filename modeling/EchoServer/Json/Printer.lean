import EchoServer.Binary64.Shortest
import EchoServer.Json.Basic

namespace EchoServer.Json

/-- The UTF-8 bytes of characters. -/
def utf8 (cs : List Char) : List UInt8 := cs.flatMap String.utf8EncodeChar

/-- The digit of value `n` below 16. -/
def hexDigit (n : Nat) : Char := Nat.digitChar n

/-- One character inside a string. -/
def escapeChar (c : Char) : List Char :=
  match c with
  | '"' => ['\\', '"']
  | '\\' => ['\\', '\\']
  | '\x08' => ['\\', 'b']
  | '\x0c' => ['\\', 'f']
  | '\n' => ['\\', 'n']
  | '\r' => ['\\', 'r']
  | '\t' => ['\\', 't']
  | c =>
    if c.toNat < 0x20 then ['\\', 'u', '0', '0', hexDigit (c.toNat / 16), hexDigit (c.toNat % 16)]
    else [c]

/-- A string between quotes. -/
def printString (s : String) : List UInt8 :=
  utf8 ('"' :: s.toList.flatMap escapeChar ++ ['"'])

/-- How binary64 numbers are laid out: the leading digit stands between the fifth place after the
point and the sixteenth before it, or an exponent of at least two digits is written. -/
def floatLayout : Binary64.Layout := { positional := (-5, 15), exponentDigits := 2 }

/-- The digits of an integer, after a minus sign if it is negative. -/
def intText (n : Int) : List Char :=
  if n < 0 then '-' :: Nat.toDigits 10 n.natAbs else Nat.toDigits 10 n.natAbs

def numberText : JsonNumber → List Char
  | .integer n => intText n.val
  | .float x => floatLayout.text x

mutual

def print : Json → List UInt8
  | .null => utf8 ['n', 'u', 'l', 'l']
  | .bool true => utf8 ['t', 'r', 'u', 'e']
  | .bool false => utf8 ['f', 'a', 'l', 's', 'e']
  | .number n => utf8 (numberText n)
  | .string s => printString s
  | .array items => utf8 ['['] ++ printItems items ++ utf8 [']']
  | .object members => utf8 ['\x7b'] ++ printMembers members ++ utf8 ['\x7d']

/-- The items of an array, with a comma between neighbours. -/
def printItems : List Json → List UInt8
  | [] => []
  | v :: rest => print v ++ printMoreItems rest

def printMoreItems : List Json → List UInt8
  | [] => []
  | v :: rest => utf8 [','] ++ print v ++ printMoreItems rest

/-- The members of an object, with a comma between neighbours. -/
def printMembers : List (String × Json) → List UInt8
  | [] => []
  | (k, v) :: rest => printString k ++ utf8 [':'] ++ print v ++ printMoreMembers rest

def printMoreMembers : List (String × Json) → List UInt8
  | [] => []
  | (k, v) :: rest =>
    utf8 [','] ++ printString k ++ utf8 [':'] ++ print v ++ printMoreMembers rest

end

def text (v : Json) : String := (String.fromUTF8? ⟨(print v).toArray⟩).getD ""

end EchoServer.Json
