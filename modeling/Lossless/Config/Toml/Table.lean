import Lossless.Config.Value

/-!
# Tables that are built line by line

A TOML file defines its tables piece by piece: a header opens a table or one more table of an array, and a
key with dots reaches into the tables below. A table remembers how it came about, because that decides what
may still be added to it.
-/

namespace Lossless
namespace Config
namespace Toml

/-- How a table came about. -/
inductive Origin
  /-- On the way to a table with a header. -/
  | implied
  /-- By a header of its own. -/
  | header
  /-- By a key with dots. -/
  | dotted
  deriving DecidableEq

/-- What a name stands for. -/
inductive Node
  /-- A value that is written as a whole. -/
  | value (value : Value)
  | table (origin : Origin) (entries : List (Text × Node))
  /-- An array of tables; the newest comes first. -/
  | tables (elements : List (List (Text × Node)))

/-- Named nodes in the order of their definition. -/
abbrev Entries := List (Text × Node)

/-- The entries with another node for a name that is there. -/
def replaceNode
    (entries : Entries)
    (name : Text)
    (node : Node) : Entries :=
  entries.map fun (other, old) => (other, if other = name then node else old)

/--
Change the table that a path leads to, with tables made on the way where there are none. A key with dots
does not reach into a table that has a header.
-/
def changeAt
    (isDotted : Bool)
    (change : Origin -> Entries -> Option Entries) :
    List Text -> Origin -> Entries -> Option Entries
  | [], origin, entries => change origin entries
  | name :: path, _, entries =>
      match entries.lookup name with
      | none => do
          let origin := if isDotted then .dotted else .implied
          return entries ++ [(name, .table origin (<- changeAt isDotted change path origin []))]
      | some (.table origin below) => do
          guard !(isDotted && origin = .header)
          return replaceNode entries name (.table origin (<- changeAt isDotted change path origin below))
      | some (.tables (newest :: older)) => do
          return replaceNode entries name
            (.tables ((<- changeAt isDotted change path .header newest) :: older))
      | some (.tables []) => none
      | some (.value _) => none

/-- Define a name that is not defined. -/
def define
    (name : Text)
    (node : Node)
    (entries : Entries) : Option Entries :=
  if (entries.lookup name).isSome then none else some (entries ++ [(name, node)])

/-- Define a key with dots in a table; the last table on the way must have come about in the same way. -/
def defineKey
    (path : List Text)
    (name : Text)
    (value : Value) : Origin -> Entries -> Option Entries :=
  changeAt true (fun origin entries => do
    guard (path.isEmpty || origin = .dotted)
    define name (.value value) entries) path

/-- Open the table with a header. -/
def openTable
    (name : Text)
    (_ : Origin)
    (entries : Entries) : Option Entries :=
  match entries.lookup name with
  | none => some (entries ++ [(name, .table .header [])])
  | some (.table .implied below) => some (replaceNode entries name (.table .header below))
  | some _ => none

/-- Open one more table of an array. -/
def openElement
    (name : Text)
    (_ : Origin)
    (entries : Entries) : Option Entries :=
  match entries.lookup name with
  | none => some (entries ++ [(name, .tables [[]])])
  | some (.tables elements) => some (replaceNode entries name (.tables ([] :: elements)))
  | some _ => none

mutual

/-- The value that a node describes. -/
def Node.toValue : Node -> Value
  | .value value => value
  | .table _ entries => .table (toEntries entries)
  | .tables elements => .list (toTables elements).reverse

/-- The named values of a table. -/
def toEntries : Entries -> List (Text × Value)
  | [] => []
  | (name, node) :: rest => (name, node.toValue) :: toEntries rest

/-- The tables of an array. -/
def toTables : List Entries -> List Value
  | [] => []
  | entries :: rest => .table (toEntries entries) :: toTables rest

end

end Toml
end Config
end Lossless
