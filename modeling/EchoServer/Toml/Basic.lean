namespace EchoServer.Toml

inductive Value
  | string (s : String)
  | integer (n : Int64)
  /-- A float, as it is spelled. -/
  | float (spelling : List Char)
  | boolean (b : Bool)
  /-- A date, a time or both, as they are spelled. -/
  | moment (spelling : List Char)
  | array (items : List Value)
  | table (entries : List (String × Value))

/-- A key: the names of the tables on the way, and the name in the last of them. -/
structure Key where
  path : List String
  name : String

/-- A statement of a document. -/
inductive Statement
  | table (key : Key)
  /-- Opens the next table of an array. -/
  | element (key : Key)
  /-- Gives a value in the table that is open. -/
  | entry (key : Key) (value : Value)

/-- How deep values may be nested, and how many names a key may have: fewer than this. -/
def depthLimit : Nat := 80

end EchoServer.Toml
