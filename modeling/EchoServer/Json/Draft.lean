import EchoServer.Json.Error

/-! A draft is a JSON tree with marks: one where reading had to stop, and faults where a piece of
text is well formed but has no value. Whoever skips a part is easier to please than who keeps it. -/
namespace EchoServer.Json

/-- With what a faulty value begins. -/
inductive Opening
  | nothing
  | quote
  | other
  deriving DecidableEq

/-- A mark in a draft. -/
structure Fault where
  /-- What a reader reports who keeps the value. -/
  kept : SyntaxError
  /-- What a reader reports who skips the value; `none` if skipping gets past it. -/
  skipped : Option SyntaxError
  opening : Opening
  deriving DecidableEq

/-- A fault that stops every reader alike. -/
def Fault.stop (e : SyntaxError) (opening : Opening) : Fault := ⟨e, some e, opening⟩

inductive Key
  | name (s : String)
  /-- A string without a value, or one that does not end. -/
  | flawed (e : SyntaxError)
  /-- No string at all; the member's value is what stands in its place. -/
  | misplaced

/-- What reading gets out of a text. A container lists what was read of it and the fault at which
its list breaks off; a fault further inside ends the list too, and is not repeated. -/
inductive Draft
  | null
  | bool (b : Bool)
  | number (n : JsonNumber)
  | string (s : String)
  | array (items : List Draft) (stop : Option Fault)
  | object (members : List (Key × Draft)) (stop : Option Fault)
  | fault (f : Fault)

namespace Draft

mutual

/-- What a reader reports who skips `d`. -/
def skipError : Draft → Option SyntaxError
  | .array items stop => (skipItems items).or (stop.bind (·.skipped))
  | .object members stop => (skipMembers members).or (stop.bind (·.skipped))
  | .fault f => f.skipped
  | _ => none

def skipItems : List Draft → Option SyntaxError
  | [] => none
  | d :: rest => (skipError d).or (skipItems rest)

def skipMembers : List (Key × Draft) → Option SyntaxError
  | [] => none
  | (.misplaced, _) :: _ => some .keyNotString
  | (_, d) :: rest => (skipError d).or (skipMembers rest)

end

mutual

/-- The draft of a value: it has no marks. -/
def ofJson : Json → Draft
  | .null => .null
  | .bool b => .bool b
  | .number n => .number n
  | .string s => .string s
  | .array items => .array (ofItems items) none
  | .object members => .object (ofMembers members) none

def ofItems : List Json → List Draft
  | [] => []
  | v :: rest => ofJson v :: ofItems rest

def ofMembers : List (String × Json) → List (Key × Draft)
  | [] => []
  | (k, v) :: rest => (.name k, ofJson v) :: ofMembers rest

end

end Draft
end EchoServer.Json
