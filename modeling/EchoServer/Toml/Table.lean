import EchoServer.Toml.Basic

/-! A table may be opened by its header once. Tables on the way to it may still be opened later,
unless a key with points named them. -/
namespace EchoServer.Toml

/-- How a table came into being. -/
inductive Origin
  /-- It was opened. -/
  | header
  /-- It was named on the way to a table that was opened. -/
  | path
  /-- It was named in a key with points. -/
  | key
  deriving DecidableEq

/-- What stands under a name. -/
inductive Node
  | value (v : Value)
  | table (origin : Origin) (entries : List (String × Node))
  /-- An array of tables: the last one, and those before it, the latest first. -/
  | tables (last : List (String × Node)) (before : List (List (String × Node)))

/-- The entries of a table in order. -/
abbrev Entries : Type := List (String × Node)

namespace Entries

/-- What stands under a name. -/
def get? (t : Entries) (name : String) : Option Node :=
  (List.find? (fun e => e.1 = name) t).map (·.2)

def set (t : Entries) (name : String) (n : Node) : Entries :=
  t.map fun e => if e.1 = name then (name, n) else e

/-- Fills the table at the end of a path; tables that are missing on the way are made. -/
def within (fill : Entries → Option Entries) : List String → Entries → Option Entries
  | [], t => fill t
  | name :: path, t => match t.get? name with
    | none => (within fill path []).map fun sub => t ++ [(name, .table .path sub)]
    | some (.table origin sub) =>
      (within fill path sub).map fun sub => t.set name (.table origin sub)
    | some (.tables last before) =>
      (within fill path last).map fun last => t.set name (.tables last before)
    | some (.value _) => none

/-- Adds a value under a key; `direct` says whether this table may be added to directly. -/
def add (name : String) (v : Value) : Bool → List String → Entries → Option Entries
  | direct, [], t =>
    if direct && (t.get? name).isNone then some (t ++ [(name, .value v)]) else none
  | _, table :: path, t => match t.get? table with
    | none => (add name v true path []).map fun sub => t ++ [(table, .table .key sub)]
    | some (.table .header _) => none
    | some (.table origin sub) =>
      (add name v (origin = .key) path sub).map fun sub => t.set table (.table origin sub)
    | some (.tables last before) =>
      (add name v false path last).map fun last => t.set table (.tables last before)
    | some (.value _) => none

/-- Opens the table of a name. -/
def openTable (name : String) (t : Entries) : Option Entries :=
  match t.get? name with
  | none => some (t ++ [(name, .table .header [])])
  | some (.table .path sub) => some (t.set name (.table .header sub))
  | some _ => none

/-- Opens the next table of the array of a name. -/
def openElement (name : String) (t : Entries) : Option Entries :=
  match t.get? name with
  | none => some (t ++ [(name, .tables [] [])])
  | some (.tables last before) => some (t.set name (.tables [] (last :: before)))
  | some _ => none

end Entries

mutual

/-- The value that a node has become. -/
def Node.toValue : Node → Value
  | .value v => v
  | .table _ entries => .table (entriesToValues entries)
  | .tables last before => .array (tablesToValues [.table (entriesToValues last)] before)

def entriesToValues : List (String × Node) → List (String × Value)
  | [] => []
  | (name, n) :: rest => (name, n.toValue) :: entriesToValues rest

def tablesToValues (acc : List Value) : List (List (String × Node)) → List Value
  | [] => acc
  | t :: rest => tablesToValues (.table (entriesToValues t) :: acc) rest

end

/-- A document that is being read: its tables, and the path of the one that is open. -/
structure Draft where
  root : Entries
  here : List String

namespace Draft

def empty : Draft := ⟨[], []⟩

/-- Follows a statement, if it does not contradict those before it. -/
def follow (d : Draft) : Statement → Option Draft
  | .entry key v =>
    (d.root.within (Entries.add key.name v true key.path) d.here).map fun root => { d with root }
  | .table key =>
    (d.root.within (Entries.openTable key.name) key.path).map fun root =>
      { root, here := key.path ++ [key.name] }
  | .element key =>
    (d.root.within (Entries.openElement key.name) key.path).map fun root =>
      { root, here := key.path ++ [key.name] }

end Draft

/-- The table that statements describe, if none contradicts those before it. -/
def tableOf? (statements : List Statement) : Option (List (String × Value)) :=
  (statements.foldlM Draft.follow .empty).map fun d => entriesToValues d.root

end EchoServer.Toml
