import JsonTint.Toml.Value

/-!
# Tables under construction

A document fills its tables bit by bit, and what may still be added to a table
depends on how it came about: a header defines it once, a longer header implies
it, and a dotted key makes it part of another table.  A value, once given, can
no longer be changed.
-/

namespace JsonTint
namespace Toml

/-- How a table came about. -/
inductive Origin where
  /-- A header of its own. -/
  | header
  /-- The header of a table inside it. -/
  | implied
  /-- A dotted key. -/
  | dotted
  deriving DecidableEq, Repr

/-- A value, or a table or an array of tables that may still grow. -/
inductive Tree where
  | leaf (v : Value)
  | table (origin : Origin) (entries : List (String × Tree))
  | tables (elements : List (List (String × Tree)))

namespace Tree

/-- The entries of a table under construction. -/
abbrev Branches := List (String × Tree)

/-- Changes what a name stands for, at the place where it is; a new name comes
last. -/
def alter (name : String) (f : Option Tree → Option Tree) : Branches → Option Branches
  | [] => (f none).map fun t => [(name, t)]
  | (other, t) :: rest =>
    if other = name then (f (some t)).map fun t => (other, t) :: rest
    else (alter name f rest).map fun rest => (other, t) :: rest

/-- Changes the last element of an array. -/
def alterLast (f : Branches → Option Branches) : List Branches → Option (List Branches)
  | [] => none
  | [last] => (f last).map fun last => [last]
  | first :: second :: rest => (alterLast f (second :: rest)).map (first :: ·)

/-- Gives a new name a value. -/
def setLeaf (name : String) (v : Value) : Branches → Option Branches :=
  alter name fun
    | none => some (leaf v)
    | some _ => none

/-- Gives the name at the end of a dotted key a value.  The tables on the way
may be new, made by dotted keys, or implied, but the last one must not be
implied, and none may have a header. -/
def setDotted (name : String) (v : Value) : List String → Branches → Option Branches
  | [] => setLeaf name v
  | part :: path =>
    alter part fun
      | none => (setDotted name v path []).map (table .dotted)
      | some (table .header _) => none
      | some (table .implied sub) =>
        if path.isEmpty then none else (setDotted name v path sub).map (table .implied)
      | some (table .dotted sub) => (setDotted name v path sub).map (table .dotted)
      | some (tables elements) =>
        if path.isEmpty then none else (alterLast (setDotted name v path) elements).map tables
      | some (leaf _) => none

/-- Changes the table that the names of a header lead to.  Missing tables are
implied, and an array of tables stands for its last element. -/
def alterAt (f : Branches → Option Branches) : List String → Branches → Option Branches
  | [] => f
  | part :: path =>
    alter part fun
      | none => (alterAt f path []).map (table .implied)
      | some (table origin sub) => (alterAt f path sub).map (table origin)
      | some (tables elements) => (alterLast (alterAt f path) elements).map tables
      | some (leaf _) => none

/-- Defines a table by its header: it must be new or only implied so far.  The
table stands at the place of the header, so one that was implied moves behind
the entries that are there by now. -/
def defineTable (name : String) (branches : Branches) : Option Branches :=
  match branches.lookup name with
  | none => some (branches ++ [(name, table .header [])])
  | some (table .implied sub) =>
    some (branches.filter (fun branch => branch.1 != name) ++ [(name, table .header sub)])
  | some _ => none

/-- Adds a table to an array of tables, which may be new. -/
def extendArray (name : String) : Branches → Option Branches :=
  alter name fun
    | none => some (tables [[]])
    | some (tables elements) => some (tables (elements ++ [[]]))
    | some _ => none

/-! ## Finished tables -/

mutual

/-- The value that a tree has grown into. -/
def toValue : Tree → Value
  | leaf v => v
  | table _ entries => .table (toEntries entries)
  | tables elements => .array (toTables elements)

/-- The entries that a table has got. -/
def toEntries : Branches → Entries
  | [] => []
  | (name, t) :: rest => (name, toValue t) :: toEntries rest

/-- The tables that an array has got. -/
def toTables : List Branches → List Value
  | [] => []
  | entries :: rest => .table (toEntries entries) :: toTables rest

end

end Tree
end Toml
end JsonTint
