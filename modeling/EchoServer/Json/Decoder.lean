import EchoServer.Json.Reader

namespace EchoServer.Json

/-- Where a draft came from. -/
inductive Origin
  /-- A text that is being read. -/
  | text
  | value
  /-- A part of a text that was read before. -/
  | buffer
  deriving DecidableEq

/-- The place of a draft: its origin, and one more than the number of containers that may still
be opened around its parts. -/
structure Place where
  origin : Origin
  depth : Nat

def Place.text : Place := ⟨.text, 128⟩

def Place.value : Place := ⟨.value, 128⟩

/-- The place of a part that was read before. -/
def Place.buffer : Place := ⟨.buffer, 128⟩

def Place.enter (p : Place) : Except DecodeError Place :=
  if p.origin = .text then
    if 1 < p.depth then .ok { p with depth := p.depth - 1 } else .error (.notJson .tooDeep)
  else .ok p

/-- A way to get a typed value out of a draft. -/
abbrev Decoder (α : Type) := Place → Draft → Except DecodeError α

/-- What to report where `e` was asked for and `d` does not fit. -/
def mismatch (e : Expectation) (d : Draft) : DecodeError :=
  match d with
  | .null => .wrongType .null e
  | .bool b => .wrongType (.bool b) e
  | .number (.integer n) => .wrongType (.integer n.val) e
  | .number (.float x) => .wrongType (.float x) e
  | .string s => .wrongType (.string s) e
  | .array _ _ => .wrongType .sequence e
  | .object _ _ => .wrongType .map e
  | .fault f => .notJson f.kept

/-- A fault at which a list breaks off. -/
def checkStop : Option Fault → Except DecodeError Unit
  | none => .ok ()
  | some f => .error (.notJson f.kept)

/-- What to report if a reader who has taken `taken` items of a list meets more than its end. -/
def checkSurplus (p : Place) (taken : Nat) (items : List Draft) (stop : Option Fault) :
    Except DecodeError Unit :=
  match p.origin with
  | .text =>
    if taken < items.length then .error (.notJson .trailingCharacters)
    else match stop with
      | none => .ok ()
      | some f =>
        if f.kept = .trailingComma ∨ f.kept = .endInList then .error (.notJson f.kept)
        else .error (.notJson .trailingCharacters)
  | .value =>
    if taken < items.length then .error (.wrongLength items.length .fewerItems) else .ok ()
  | .buffer =>
    if taken < items.length then .error (.wrongLength items.length (.items taken)) else .ok ()

namespace Decoder

def string : Decoder String
  | _, .string s => .ok s
  | _, d => .error (mismatch .string d)

def bool : Decoder Bool
  | _, .bool b => .ok b
  | _, d => .error (mismatch .boolean d)

def int32 : Decoder Int32
  | _, .number (.integer n) =>
    if -2147483648 ≤ n.val ∧ n.val < 2147483648 then .ok (Int32.ofInt n.val)
    else .error (.wrongValue (.integer n.val) .int32)
  | _, d => .error (mismatch .int32 d)

def int64 : Decoder Int64
  | _, .number (.integer n) =>
    if n.val < 9223372036854775808 then .ok (Int64.ofInt n.val)
    else .error (.wrongValue (.integer n.val) .int64)
  | _, d => .error (mismatch .int64 d)

def timestamp : Decoder Time.Timestamp
  | _, .string s =>
    match Time.Rfc3339.read s.toList with
    | .ok t => .ok t
    | .error e => .error (.badTime e)
  | _, d => .error (mismatch .time d)

/-- A value, or null for none. -/
def optional {α : Type} (item : Decoder α) : Decoder (Option α)
  | _, .null => .ok none
  | p, d => do
    let a ← item p d
    pure (some a)

def items {α : Type} (item : Decoder α) (p : Place) : List Draft → Except DecodeError (List α)
  | [] => .ok []
  | d :: rest => do
    let a ← item p d
    let as ← items item p rest
    pure (a :: as)

def list {α : Type} (item : Decoder α) : Decoder (List α)
  | p, .array ds stop => do
    let p ← p.enter
    let as ← items item p ds
    checkStop stop
    pure as
  | _, d => .error (mismatch .sequence d)

/-- A pair, spelled as a list of two items. -/
def pair {α β : Type} (first : Decoder α) (second : Decoder β) : Decoder (α × β)
  | p, .array ds stop => do
    let p ← p.enter
    match ds with
    | [] => do
      checkStop stop
      .error (.wrongLength 0 .pair)
    | [d] => do
      let _ ← first p d
      checkStop stop
      .error (.wrongLength 1 .pair)
    | d :: e :: _ => do
      let a ← first p d
      let b ← second p e
      checkSurplus p 2 ds stop
      pure (a, b)
  | _, d => .error (mismatch .pair d)

def unit : Decoder Unit
  | _, .null => .ok ()
  | _, d => .error (mismatch .unit d)

def key : Key → Except DecodeError String
  | .name s => .ok s
  | .flawed e => .error (.notJson e)
  | .misplaced => .error (.notJson .keyNotString)

mutual

/-- Any value, with the keys of its objects in ascending order. -/
def json : Place → Draft → Except DecodeError Json
  | _, .null => .ok .null
  | _, .bool b => .ok (.bool b)
  | _, .number n => .ok (.number n)
  | _, .string s => .ok (.string s)
  | p, .array ds stop => do
    let p ← p.enter
    let vs ← jsonItems p ds
    checkStop stop
    pure (.array vs)
  | p, .object ms stop => do
    let p ← p.enter
    let vs ← jsonMembers p ms
    checkStop stop
    pure (.ofMembers vs)
  | _, .fault f => .error (.notJson f.kept)

def jsonItems (p : Place) : List Draft → Except DecodeError (List Json)
  | [] => .ok []
  | d :: rest => do
    let v ← json p d
    let vs ← jsonItems p rest
    pure (v :: vs)

def jsonMembers (p : Place) : List (Key × Draft) → Except DecodeError (List (String × Json))
  | [] => .ok []
  | (k, d) :: rest => do
    let s ← key k
    let v ← json p d
    let vs ← jsonMembers p rest
    pure ((s, v) :: vs)

end

/-- Reads a value that no one looks at yet: only its text can be wrong. -/
def buffered : Decoder Unit := fun p d => do
  let _ ← json p d
  pure ()

/-- Gets a value out of the bytes of a text. -/
def ofText {α : Type} (item : Decoder α) (bytes : List UInt8) : Except DecodeError α := do
  let doc := readDocument bytes
  let a ← item .text doc.draft
  if doc.trailing then .error (.notJson .trailingCharacters) else .ok a

def ofJson {α : Type} (item : Decoder α) (v : Json) : Except DecodeError α :=
  item .value (.ofJson v)

end Decoder
end EchoServer.Json
