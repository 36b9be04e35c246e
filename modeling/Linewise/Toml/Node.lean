import Linewise.Toml.Value

/-!
# Tables under construction

While a document is read, its tables grow, and whether one may still be extended depends on how it
came to be. A table is *stated* by a header of its own, *implied* by a header of a table inside of
it, or *dotted*, that is, made by a key with dots.

* A header may state a table that was only implied so far, and nothing else that exists.
* A dotted key may extend tables that dotted keys made, and pass through implied ones, but not
  through stated ones.
* A header of an array of tables adds a row to it. Everything that names the array afterwards means
  its last row.
* An array or a table that was written as a value is complete.
-/

namespace Linewise
namespace Toml

/-- How a table came to be. -/
inductive Origin where
  /-- By a header of its own, or as the root. -/
  | stated
  /-- By a header of a table inside of it. -/
  | implied
  /-- By a key with dots. -/
  | dotted
  deriving DecidableEq, Repr

/-- A part of a document under construction. -/
inductive Node where
  /-- A value, which is complete. -/
  | leaf (value : Value)
  /-- A table. -/
  | table (origin : Origin) (entries : List (String × Node))
  /-- An array of tables, the last row first. -/
  | rows (rows : List (List (String × Node)))

/-- The entries of a table under construction, in the order in which they were begun. -/
abbrev Entries := List (String × Node)

namespace Entries

/-- The entry with a key. -/
def find? (es : Entries) (key : String) : Option Node := List.lookup key es

/-- Replaces the entry with a key, or adds one at the end. -/
def put (key : String) (node : Node) : Entries → Entries
  | [] => [(key, node)]
  | (k, n) :: rest => if k = key then (key, node) :: rest else (k, n) :: put key node rest

/-- Changes the table at the end of a path, and makes the tables on the way that are missing.
`dotted` says that the path is one of a dotted key, rather than of a header. -/
def update (dotted : Bool) (change : Origin → Entries → Option Entries) :
    List String → Origin → Entries → Option Entries
  | [], origin, es => change origin es
  | key :: path, _, es =>
    match find? es key with
    | none =>
      let origin : Origin := if dotted then .dotted else .implied
      (update dotted change path origin []).map fun inner => put key (.table origin inner) es
    | some (.leaf _) => none
    | some (.rows []) => none
    | some (.rows (row :: rows)) =>
      (update dotted change path .stated row).map fun row => put key (.rows (row :: rows)) es
    | some (.table origin inner) =>
      if dotted && origin = .stated then none
      else
        (update dotted change path origin inner).map fun inner => put key (.table origin inner) es

/-- Adds a value under a key, the last of a dotted key with the other parts `path`. The key must be
new, and behind dots the table must be one that dots made. -/
def addValue (path : List String) (key : String) (value : Value) :
    Origin → Entries → Option Entries :=
  update true
    (fun origin es =>
      if !path.isEmpty && origin ≠ .dotted then none
      else if (find? es key).isSome then none
      else some (put key (.leaf value) es))
    path

/-- States the table with the given key. -/
def stateTable (key : String) (es : Entries) : Option Entries :=
  match find? es key with
  | none => some (put key (.table .stated []) es)
  | some (.table .implied inner) => some (put key (.table .stated inner) es)
  | some _ => none

/-- Adds a row to the array of tables with the given key. -/
def addRow (key : String) (es : Entries) : Option Entries :=
  match find? es key with
  | none => some (put key (.rows [[]]) es)
  | some (.rows rows) => some (put key (.rows ([] :: rows)) es)
  | some _ => none

end Entries

mutual

/-- The value of a finished node. -/
def Node.toValue : Node → Value
  | .leaf value => value
  | .table _ entries => .table (entryValues entries)
  | .rows rows => .array (rowValues rows).reverse

/-- The values of finished entries. -/
def entryValues : List (String × Node) → List (String × Value)
  | [] => []
  | (key, node) :: rest => (key, node.toValue) :: entryValues rest

/-- The values of finished rows. -/
def rowValues : List (List (String × Node)) → List Value
  | [] => []
  | row :: rest => .table (entryValues row) :: rowValues rest

end

end Toml
end Linewise
