import EchoServer.Json.Decoder

/-! A record is spelled as an object, or as the list of its fields. Each field is looked up on its
own, and together they report the failure that stands first in the text. -/
namespace EchoServer.Json

/-- A failure with its place in an object. -/
abbrev Located (α : Type) := Except (Nat × DecodeError) α

/-- Both values, or the failure that comes first. -/
def Located.both {α β : Type} : Located α → Located β → Located (α × β)
  | .ok a, .ok b => .ok (a, b)
  | .ok _, .error f => .error f
  | .error e, .ok _ => .error e
  | .error e, .error f => .error (if f.1 < e.1 then f else e)

/-- Puts a place to a failure. -/
def Located.at {α : Type} (i : Nat) : Except DecodeError α → Located α
  | .ok a => .ok a
  | .error e => .error (i, e)

/-- The members called `name`, each with its index. -/
def membersNamed (name : String) (members : List (Key × Draft)) : List (Draft × Nat) :=
  members.zipIdx.filterMap fun ((k, d), i) =>
    match k with
    | .name s => if s = name then some (d, i) else none
    | _ => none

/-- The first failure among keys and among members with other names than these. -/
def strayError (names : List String) : List (Key × Draft) → Nat → Located Unit
  | [], _ => .ok ()
  | (.name s, d) :: rest, i =>
    if names.contains s then strayError names rest (i + 1)
    else match d.skipError with
      | some e => .error (i, .notJson e)
      | none => strayError names rest (i + 1)
  | (.flawed e, _) :: _, i => .error (i, .notJson e)
  | (.misplaced, _) :: _, i => .error (i, .notJson .keyNotString)

/-- How the fields of a record are found. -/
structure Record (α : Type) where
  names : List String
  /-- The fields of an object. -/
  ofMembers : Place → List (Key × Draft) → Located α
  /-- The fields of a list, of which the first stands at the given index. -/
  ofItems : Place → Expectation → Nat → List Draft → Option Fault → Except DecodeError α

namespace Record

/-- What a field is if nothing is said of it: an object and a list may differ. -/
structure Absent (α : Type) where
  member : Option α
  item : Option α

def Absent.required {α : Type} : Absent α := ⟨none, none⟩

def Absent.default {α : Type} (a : α) : Absent α := ⟨some a, some a⟩

/-- One field. -/
def field {α : Type} (name : String) (item : Decoder α) (absent : Absent α) : Record α where
  names := [name]
  ofMembers p members :=
    match membersNamed name members with
    | [] => match absent.member with
      | some a => .ok a
      | none => .error (members.length + 1, .missingField name)
    | (d, i) :: more => match item p d with
      | .error e => .error (i, e)
      | .ok a => match more with
        | [] => .ok a
        | (_, j) :: _ => .error (j, .duplicateField name)
  ofItems p e i items stop :=
    match items[i]? with
    | some d => item p d
    | none => do
      checkStop stop
      match absent.item with
      | some a => .ok a
      | none => .error (.wrongLength i e)

/-- The fields of one record and then those of another. -/
def both {α β : Type} (r : Record α) (s : Record β) : Record (α × β) where
  names := r.names ++ s.names
  ofMembers p members := (r.ofMembers p members).both (s.ofMembers p members)
  ofItems p e i items stop := do
    let a ← r.ofItems p e i items stop
    let b ← s.ofItems p e (i + r.names.length) items stop
    .ok (a, b)

/-- The same fields, put together by `f`. -/
def map {α β : Type} (f : α → β) (r : Record α) : Record β where
  names := r.names
  ofMembers p members := (r.ofMembers p members).map f
  ofItems p e i items stop := (r.ofItems p e i items stop).map f

/-- The fields of an object whose list of members breaks off at `stop`. -/
def decodeMembers {α : Type} (r : Record α) (p : Place) (members : List (Key × Draft))
    (stop : Option Fault) : Except DecodeError α :=
  let ends := Located.at members.length (checkStop stop)
  let all := ((strayError r.names members 0).both ends).both (r.ofMembers p members)
  match all with
  | .ok (_, a) => .ok a
  | .error (_, e) => .error e

/-- The fields of a list whose items break off at `stop`. -/
def decodeItems {α : Type} (r : Record α) (p : Place) (e : Expectation) (items : List Draft)
    (stop : Option Fault) : Except DecodeError α := do
  let a ← r.ofItems p e 0 items stop
  checkSurplus p r.names.length items stop
  .ok a

/-- A record, spelled as an object or as a list. -/
def decoder {α : Type} (name : String) (r : Record α) : Decoder α := fun p d =>
  let e := Expectation.record name r.names.length
  match d with
  | .array items stop => do
    let p ← p.enter
    r.decodeItems p e items stop
  | .object members stop => do
    let p ← p.enter
    r.decodeMembers p members stop
  | d => .error (mismatch e d)

end Record

namespace Decoder

/-- The name of a variant, which must be one of `variants`. -/
def variantName (variants : List String) (s : String) : Except DecodeError String :=
  if variants.contains s then .ok s else .error (.unknownVariant s variants)

/-- The name of a variant, from the draft that stands for it. -/
def variantTag (variants : List String) : Draft → Except DecodeError String
  | .string s => variantName variants s
  | d => .error (mismatch .variantTag d)

/-- The name of a variant, from the key of a text. -/
def variantKey (variants : List String) : Key × Draft → Except DecodeError String
  | (.name s, _) => variantName variants s
  | (.flawed e, _) => .error (.notJson e)
  | (.misplaced, d) => variantTag variants d

/-- What to report after the only member of an object that names a variant. -/
def checkVariantEnd (rest : List (Key × Draft)) (stop : Option Fault) : Except DecodeError Unit :=
  if !rest.isEmpty then .error (.notJson .expectedValue)
  else match stop with
    | none => .ok ()
    | some f =>
      if f.kept = .endInObject then .error (.notJson .endInObject)
      else .error (.notJson .expectedValue)

/-- One of some named variants: a string with its name, or an object whose only member has its
name. `content` gets the name and what stands for the content, which a string has not. -/
def variant {α : Type} (variants : List String)
    (content : String → Place → Option Draft → Except DecodeError α) : Decoder α
  | p, .string s => do
    let name ← variantName variants s
    content name p none
  | p, .object members stop => do
    let p ← p.enter
    if p.origin = .text then
      match members with
      | [] => match stop with
        | none => .error (.notJson .expectedValue)
        | some _ => .error (.notJson .endInValue)
      | m :: rest => do
        let name ← variantKey variants m
        let a ← content name p (some m.2)
        checkVariantEnd rest stop
        .ok a
    else
      match members with
      | [(.name s, d)] => do
        let name ← variantName variants s
        content name p (some d)
      | _ => .error (.wrongValue .map .singleKey)
  | p, d =>
    if p.origin = .text then
      match d with
      | .fault f => .error (.notJson (if f.opening = .other then .expectedValue else f.kept))
      | _ => .error (.notJson .expectedValue)
    else .error (mismatch .enumeration d)

/-- The tag of an object and its other members, in order. The members are read as they come;
only the tag is looked at. -/
def tagOfMembers (variants : List String) (p : Place) (tag : Option String)
    (others : List (Key × Draft)) :
    List (Key × Draft) → Except DecodeError (Option String × List (Key × Draft))
  | [] => .ok (tag, others.reverse)
  | (k, d) :: rest => do
    let s ← key k
    if s = "type" then
      match tag with
      | some _ => .error (.duplicateField "type")
      | none => do
        let name ← variantTag variants d
        tagOfMembers variants p (some name) others rest
    else do
      buffered p d
      tagOfMembers variants p tag ((k, d) :: others) rest

/-- Reads items that no one looks at yet. -/
def bufferedItems (p : Place) : List Draft → Except DecodeError Unit
  | [] => .ok ()
  | d :: rest => do
    buffered p d
    bufferedItems p rest

/-- One of some named variants: an object whose member `type` has its name, or a list whose first
item is its name. `content` gets the name and the object or list without it. -/
def tagged {α : Type} (typeName : String) (variants : List String)
    (content : String → Draft → Except DecodeError α) : Decoder α
  | p, .object members stop => do
    let p ← p.enter
    let (tag, others) ← tagOfMembers variants p none [] members
    checkStop stop
    match tag with
    | none => .error (.missingField "type")
    | some name => content name (.object others none)
  | p, .array items stop => do
    let p ← p.enter
    match items with
    | [] => do
      checkStop stop
      .error (.missingField "type")
    | d :: rest => do
      let name ← variantTag variants d
      bufferedItems p rest
      checkStop stop
      content name (.array rest none)
  | _, d => .error (mismatch (.tagged typeName) d)

/-- The content of a variant that is a record. -/
def variantRecord {α : Type} (name : String) (r : Record α) (d : Draft) : Except DecodeError α :=
  let e := Expectation.variantRecord name r.names.length
  match d with
  | .array items stop => r.decodeItems .buffer e items stop
  | .object members stop => r.decodeMembers .buffer members stop
  | d => .error (mismatch e d)

/-- The content of a variant without content. -/
def variantUnit {α : Type} (a : α) (d : Draft) : Except DecodeError α :=
  match d with
  | .array items stop => do
    checkSurplus .buffer 0 items stop
    .ok a
  | _ => .ok a

end Decoder
end EchoServer.Json
