import EchoServer.Binary64

namespace EchoServer

/-- The integers that are kept exactly: those of a signed or an unsigned 64-bit word. -/
abbrev WideInt : Type := 
  { n : Int // -9223372036854775808 ≤ n ∧ n < 18446744073709551616 }

/-- A JSON number: a 64-bit integer, or a binary64 number. -/
inductive JsonNumber
  | integer (n : WideInt)
  | float (x : Binary64)
  deriving DecidableEq

inductive Json
  | null
  | bool (b : Bool)
  | number (n : JsonNumber)
  | string (s : String)
  | array (items : List Json)
  | object (members : List (String × Json))

namespace Json

def int64 (n : Int64) : Json :=
  .number (.integer ⟨n.toInt, n.le_toInt, Int.lt_trans n.toInt_lt (by decide)⟩)

def int32 (n : Int32) : Json :=
  .number (.integer ⟨n.toInt, Int.le_trans (by decide) n.le_toInt,
    Int.lt_trans n.toInt_lt (by decide)⟩)

/-- A member that may be left out. -/
def optionalMember (key : String) : Option Json → List (String × Json)
  | none => []
  | some v => [(key, v)]

/-- The value of the last member named `key`. -/
def get? (key : String) : Json → Option Json
  | .object members => (members.reverse.find? (·.1 == key)).map (·.2)
  | _ => none

/-- Puts a member into an object whose keys ascend; an equal key is replaced. -/
def insertMember (key : String) (value : Json) : List (String × Json) → List (String × Json)
  | [] => [(key, value)]
  | (k, v) :: rest =>
    if key < k then (key, value) :: (k, v) :: rest
    else if key = k then (key, value) :: rest
    else (k, v) :: insertMember key value rest

/-- The object with these members in ascending order of their keys, the last of equal ones. -/
def ofMembers (members : List (String × Json)) : Json :=
  .object (members.foldl (fun acc m => insertMember m.1 m.2 acc) [])

mutual

/-- The same value in canonical order. -/
def canonical : Json → Json
  | .array items => .array (canonicalItems items)
  | .object members => ofMembers (canonicalMembers members)
  | v => v

def canonicalItems : List Json → List Json
  | [] => []
  | v :: rest => canonical v :: canonicalItems rest

def canonicalMembers : List (String × Json) → List (String × Json)
  | [] => []
  | (k, v) :: rest => (k, canonical v) :: canonicalMembers rest

end

end Json
end EchoServer
