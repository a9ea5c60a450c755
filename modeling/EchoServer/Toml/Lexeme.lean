import EchoServer.Toml.Basic

namespace EchoServer.Toml

/-- Whether `c` may stand between the parts of a line. -/
def isBlank (c : Char) : Bool := c = ' ' || c = '\t'

/-- `cs` without leading blanks. -/
def dropBlanks (cs : List Char) : List Char := cs.dropWhile isBlank

/-- Whether `c` may stand in a comment: every control character but the tab is refused. -/
def isText (c : Char) : Bool := c = '\t' || (' ' ≤ c && c ≠ '\x7f')

/-- What is left after the end of a line. -/
def newline? : List Char → Option (List Char)
  | '\n' :: cs => some cs
  | '\r' :: '\n' :: cs => some cs
  | _ => none

/-- What is left after blanks, a comment, and the end of the line or of the text. -/
def endLine? (cs : List Char) : Option (List Char) :=
  let rest := match dropBlanks cs with
    | '#' :: cs => cs.dropWhile isText
    | cs => cs
  if rest.isEmpty then some [] else newline? rest

/-- What is left after any number of blanks, ends of lines and comments, each comment with the
end of its line. The flag says whether the text starts inside of a comment. -/
def skipLines? : Bool → List Char → Option (List Char)
  | inComment, [] => if inComment then none else some []
  | _, '\n' :: cs => skipLines? false cs
  | _, '\r' :: '\n' :: cs => skipLines? false cs
  | true, c :: cs => if isText c then skipLines? true cs else none
  | false, '#' :: cs => skipLines? true cs
  | false, c :: cs => if isBlank c then skipLines? false cs else some (c :: cs)

/-- `cs` without leading blanks and ends of lines. -/
def dropLines : List Char → List Char
  | '\n' :: cs => dropLines cs
  | '\r' :: '\n' :: cs => dropLines cs
  | c :: cs => if isBlank c then dropLines cs else c :: cs
  | [] => []

/-- The value of a digit, of which there are sixteen. -/
def digitValue? (c : Char) : Option Nat :=
  if c.isDigit then some (c.toNat - 48)
  else if 'a' ≤ c && c ≤ 'f' then some (c.toNat - 87)
  else if 'A' ≤ c && c ≤ 'F' then some (c.toNat - 55)
  else none

/-- Whether `c` is a digit of numbers to the base `radix`. -/
def isDigitOf (radix : Nat) (c : Char) : Bool := (digitValue? c).any (· < radix)

/-- The number that digits spell to the base `radix`. -/
def ofDigits (radix : Nat) (ds : List Char) : Nat :=
  ds.foldl (fun n d => n * radix + (digitValue? d).getD 0) 0

/-- The character whose number is spelled by the first `n` characters. -/
def hexChar? (n : Nat) (cs : List Char) : Option (Char × List Char) :=
  let ds := cs.take n
  if ds.length = n && ds.all (isDigitOf 16) then
    if h : (ofDigits 16 ds).isValidChar then some (Char.ofNatAux _ h, cs.drop n) else none
  else none

/-- The character that an escape stands for, after its backslash. -/
def escape? : List Char → Option (Char × List Char)
  | 'b' :: cs => some ('\x08', cs)
  | 't' :: cs => some ('\t', cs)
  | 'n' :: cs => some ('\n', cs)
  | 'f' :: cs => some ('\x0c', cs)
  | 'r' :: cs => some ('\r', cs)
  | '"' :: cs => some ('"', cs)
  | '\\' :: cs => some ('\\', cs)
  | 'u' :: cs => hexChar? 4 cs
  | 'U' :: cs => hexChar? 8 cs
  | _ => none

/-- Whether strings in these quotes have escapes. -/
def hasEscapes (quote : Char) : Bool := quote = '"'

/-- The rest of a string on one line, after its opening quote, behind `acc` in reverse. -/
def lineString (quote : Char) : Nat → List Char → List Char → Option (List Char × List Char)
  | 0, _, _ => none
  | _, _, [] => none
  | fuel + 1, acc, c :: cs =>
    if c = quote then some (acc.reverse, cs)
    else if c = '\\' && hasEscapes quote then
      match escape? cs with
      | some (c, cs) => lineString quote fuel (c :: acc) cs
      | none => none
    else if isText c then lineString quote fuel (c :: acc) cs
    else none

/-- What is left after a line that ends in a backslash, and after all blank lines behind it. -/
def continueLine? (cs : List Char) : Option (List Char) := (newline? (dropBlanks cs)).map dropLines

/-- The rest of a string of many lines, after its three opening quotes, behind `acc` in reverse.
Of the quotes at its end the last three close it, and at most two stand before these. -/
def longString (quote : Char) : Nat → List Char → List Char → Option (List Char × List Char)
  | 0, _, _ => none
  | _, _, [] => none
  | fuel + 1, acc, c :: cs =>
    if c = quote then
      match cs with
      | d :: e :: rest =>
        if d = quote && e = quote then
          let last := (rest.takeWhile (· = quote)).take 2
          some (acc.reverse ++ last, rest.drop last.length)
        else longString quote fuel (c :: acc) cs
      | _ => none
    else match newline? (c :: cs) with
      | some rest => longString quote fuel ('\n' :: acc) rest
      | none =>
        if c = '\\' && hasEscapes quote then
          match continueLine? cs with
          | some rest => longString quote fuel acc rest
          | none => match escape? cs with
            | some (c, rest) => longString quote fuel (c :: acc) rest
            | none => none
        else if isText c then longString quote fuel (c :: acc) cs
        else none

/-- Whether `c` opens a string. -/
def isQuote (c : Char) : Bool := c = '"' || c = '\''

/-- A string after its first quote. An end of line right after three opening quotes is not part
of it. -/
def string? (quote : Char) (cs : List Char) : Option (String × List Char) :=
  let read := match cs with
    | d :: e :: rest =>
      if d = quote && e = quote then
        longString quote (rest.length + 1) [] ((newline? rest).getD rest)
      else lineString quote (cs.length + 1) [] cs
    | _ => lineString quote (cs.length + 1) [] cs
  read.map fun (s, rest) => (String.ofList s, rest)

/-- Whether `c` may stand in a name without quotes. -/
def isNameChar (c : Char) : Bool := c.isAlphanum || c = '-' || c = '_'

/-- A name: in quotes, or bare. -/
def name? : List Char → Option (String × List Char)
  | [] => none
  | c :: cs =>
    if isQuote c then
      (lineString c (cs.length + 1) [] cs).map fun (s, rest) => (String.ofList s, rest)
    else if isNameChar c then
      some (String.ofList ((c :: cs).takeWhile isNameChar), (c :: cs).dropWhile isNameChar)
    else none

/-- At most `fuel` names with points between them, and blanks around each. -/
def names? : Nat → List Char → Option (List String × List Char)
  | 0, _ => none
  | fuel + 1, cs =>
    match name? (dropBlanks cs) with
    | none => none
    | some (name, rest) => match dropBlanks rest with
      | '.' :: rest => (names? fuel rest).map fun (names, rest) => (name :: names, rest)
      | rest => some ([name], rest)

/-- A key, and what is left after the blanks behind it. -/
def key? (cs : List Char) : Option (Key × List Char) :=
  match names? (depthLimit - 1) cs with
  | some (names, rest) => match names.reverse with
    | name :: path => some (⟨path.reverse, name⟩, rest)
    | [] => none
  | none => none

end EchoServer.Toml
