import EchoServer.Toml.Moment
import EchoServer.Toml.Table

namespace EchoServer.Toml

def scalar? : List Char → Option (Value × List Char)
  | [] => none
  | 't' :: 'r' :: 'u' :: 'e' :: cs => some (.boolean true, cs)
  | 'f' :: 'a' :: 'l' :: 's' :: 'e' :: cs => some (.boolean false, cs)
  | c :: cs =>
    if isQuote c then (string? c cs).map fun (s, rest) => (.string s, rest)
    else (moment? (c :: cs)).orElse fun _ => number? (c :: cs)

/-- The table of the entries of an inline table. -/
def inlineTable? (entries : List (Key × Value)) : Option Value :=
  (tableOf? (entries.map fun (key, v) => .entry key v)).map .table

/-- A key, an equals sign and the blanks behind it. -/
def keyOf? (cs : List Char) : Option (Key × List Char) :=
  match key? cs with
  | some (key, '=' :: rest) => some (key, dropBlanks rest)
  | _ => none

mutual

/-- A value inside of `depth` others. -/
def value? : Nat → Nat → List Char → Option (Value × List Char)
  | 0, _, _ => none
  | fuel + 1, depth, cs =>
    match cs with
    | '[' :: rest => if depth + 1 < depthLimit then items? fuel (depth + 1) [] rest else none
    | '{' :: rest =>
      if depth + 1 < depthLimit then
        match dropBlanks rest with
        | '}' :: rest => some (.table [], rest)
        | rest => members? fuel (depth + 1) [] rest
      else none
    | _ => scalar? cs

/-- The rest of an array, behind the items `acc` in reverse. -/
def items? : Nat → Nat → List Value → List Char → Option (Value × List Char)
  | 0, _, _, _ => none
  | fuel + 1, depth, acc, cs =>
    match skipLines? false cs with
    | none => none
    | some (']' :: rest) => some (.array acc.reverse, rest)
    | some cs => match value? fuel depth cs with
      | none => none
      | some (v, rest) => match skipLines? false rest with
        | some (',' :: rest) => items? fuel depth (v :: acc) rest
        | some (']' :: rest) => some (.array (v :: acc).reverse, rest)
        | _ => none

/-- The rest of an inline table, behind the entries `acc` in reverse. -/
def members? : Nat → Nat → List (Key × Value) → List Char → Option (Value × List Char)
  | 0, _, _, _ => none
  | fuel + 1, depth, acc, cs =>
    match keyOf? cs with
    | none => none
    | some (key, cs) => match value? fuel depth cs with
      | none => none
      | some (v, rest) => match dropBlanks rest with
        | ',' :: rest => members? fuel depth ((key, v) :: acc) rest
        | '}' :: rest => (inlineTable? ((key, v) :: acc).reverse).map (·, rest)
        | _ => none

end

/-- A header up to its closing bracket. -/
def header? : List Char → Option (Statement × List Char)
  | '[' :: '[' :: cs => match key? cs with
    | some (key, ']' :: ']' :: rest) => some (.element key, rest)
    | _ => none
  | '[' :: cs => match key? cs with
    | some (key, ']' :: rest) => some (.table key, rest)
    | _ => none
  | _ => none

/-- An entry of a table. Each level of nesting takes a character and two steps. -/
def entry? (cs : List Char) : Option (Statement × List Char) :=
  (keyOf? cs).bind fun (key, cs) =>
    (value? (2 * cs.length + 2) 0 cs).map fun (v, rest) => (.entry key v, rest)

/-- The statements of a text of fewer than `fuel` lines. -/
def statements? : Nat → List Char → Option (List Statement)
  | 0, _ => none
  | fuel + 1, cs => match dropBlanks cs with
    | [] => some []
    | c :: cs =>
      if c = '#' || c = '\n' || c = '\r' then (endLine? (c :: cs)).bind (statements? fuel)
      else
        match (if c = '[' then header? (c :: cs) else entry? (c :: cs)) with
        | none => none
        | some (s, rest) => match endLine? rest with
          | none => none
          | some rest => (statements? fuel rest).map (s :: ·)

/-- The text without the mark of its byte order. -/
def dropMark : List Char → List Char
  | '\ufeff' :: cs => cs
  | cs => cs

/-- The document that a text spells. -/
def read? (text : String) : Option (List (String × Value)) :=
  let cs := dropMark text.toList
  (statements? (cs.length + 1) cs).bind tableOf?

end EchoServer.Toml
