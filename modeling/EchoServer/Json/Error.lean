import EchoServer.Binary64.Shortest
import EchoServer.Json.Printer
import EchoServer.Text.Quoted
import EchoServer.Time.Rfc3339

namespace EchoServer.Json

/-- Why a text is not JSON. -/
inductive SyntaxError
  | endInValue
  | endInList
  | endInObject
  | endInString
  | expectedValue
  | expectedWord
  | expectedColon
  | expectedObjectSeparator
  | expectedListSeparator
  | trailingComma
  | trailingCharacters
  | keyNotString
  | invalidNumber
  | numberOutOfRange
  | invalidEscape
  | unpairedEscape
  | loneSurrogate
  | controlCharacter
  | invalidText
  | tooDeep
  deriving DecidableEq

/-- Whether the text merely ended too early. -/
def SyntaxError.isEnd : SyntaxError → Bool
  | endInValue | endInList | endInObject | endInString => true
  | _ => false

def SyntaxError.message : SyntaxError → String
  | endInValue => "EOF while parsing a value"
  | endInList => "EOF while parsing a list"
  | endInObject => "EOF while parsing an object"
  | endInString => "EOF while parsing a string"
  | expectedValue => "expected value"
  | expectedWord => "expected ident"
  | expectedColon => "expected `:`"
  | expectedObjectSeparator => "expected `,` or `\x7d`"
  | expectedListSeparator => "expected `,` or `]`"
  | trailingComma => "trailing comma"
  | trailingCharacters => "trailing characters"
  | keyNotString => "key must be a string"
  | invalidNumber => "invalid number"
  | numberOutOfRange => "number out of range"
  | invalidEscape => "invalid escape"
  | unpairedEscape => "unexpected end of hex escape"
  | loneSurrogate => "lone leading surrogate in hex escape"
  | controlCharacter => "control character (\\u0000-\\u001F) found while parsing a string"
  | invalidText => "invalid unicode code point"
  | tooDeep => "recursion limit exceeded"

/-- What stands in a place that asks for something else. -/
inductive Found
  | null
  | bool (b : Bool)
  | integer (n : Int)
  | float (x : Binary64)
  | string (s : String)
  | sequence
  | map
  | unitVariant

def Found.message : Found → String
  | null => "null"
  | bool b => "boolean `" ++ (if b then "true" else "false") ++ "`"
  | integer n => "integer `" ++ String.ofList (intText n) ++ "`"
  | float x => "floating point `" ++ String.ofList (floatLayout.text x) ++ "`"
  | string s => "string " ++ Text.quoted s
  | sequence => "sequence"
  | map => "map"
  | unitVariant => "unit variant"

/-- What a place asks for. -/
inductive Expectation
  | string
  | boolean
  | int32
  | int64
  | sequence
  | pair
  | time
  | unit
  | enumeration
  | newtypeVariant
  | singleKey
  | variantTag
  | tagged (name : String)
  /-- A record of so many fields. -/
  | record (name : String) (size : Nat)
  /-- A record that belongs to one variant of a tagged type. -/
  | variantRecord (name : String) (size : Nat)
  | fewerItems
  /-- So many items of a sequence. -/
  | items (size : Nat)

/-- `n` things. -/
def counted (n : Nat) : String :=
  String.ofList (Nat.toDigits 10 n) ++ (if n = 1 then " element" else " elements")

/-- The wording of an expectation, where the kind of the thing found is wrong. -/
def Expectation.message : Expectation → String
  | string => "a string"
  | boolean => "a boolean"
  | int32 => "i32"
  | int64 => "i64"
  | sequence => "a sequence"
  | pair => "a tuple of size 2"
  | time => "an RFC 3339 formatted date and time string"
  | unit => "unit"
  | enumeration => "string or map"
  | newtypeVariant => "newtype variant"
  | singleKey => "map with a single key"
  | variantTag => "variant identifier"
  | tagged name => "internally tagged enum " ++ name
  | record name _ => "struct " ++ name
  | variantRecord name _ => "struct variant " ++ name
  | fewerItems => "fewer elements in array"
  | items n => counted n ++ " in sequence"

/-- The wording of an expectation, where the number of items is wrong. -/
def Expectation.sizeMessage (e : Expectation) : String :=
  match e with
  | record _ n | variantRecord _ n => e.message ++ " with " ++ counted n
  | _ => e.message

/-- Why a value cannot be read. -/
inductive DecodeError
  | notJson (e : SyntaxError)
  | wrongType (found : Found) (expected : Expectation)
  | wrongValue (found : Found) (expected : Expectation)
  | wrongLength (length : Nat) (expected : Expectation)
  | missingField (name : String)
  | duplicateField (name : String)
  | unknownVariant (name : String) (variants : List String)
  | badTime (e : Time.TimeError)

/-- Names between backquotes, as alternatives. -/
def alternatives (names : List String) : String :=
  let shown := names.map fun n => "`" ++ n ++ "`"
  match shown with
  | [a, b] => "expected " ++ a ++ " or " ++ b
  | _ => "expected one of " ++ ", ".intercalate shown

def DecodeError.message : DecodeError → String
  | notJson e => e.message
  | wrongType found expected => "invalid type: " ++ found.message ++ ", expected " ++ expected.message
  | wrongValue found expected =>
    "invalid value: " ++ found.message ++ ", expected " ++ expected.message
  | wrongLength n expected =>
    "invalid length " ++ String.ofList (Nat.toDigits 10 n) ++ ", expected " ++ expected.sizeMessage
  | missingField name => "missing field `" ++ name ++ "`"
  | duplicateField name => "duplicate field `" ++ name ++ "`"
  | unknownVariant name variants =>
    "unknown variant `" ++ name ++ "`, " ++ alternatives variants
  | badTime e => e.message

end EchoServer.Json
