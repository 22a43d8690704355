import JsonTint.Toml.Document

/-!
# The names of a document

No name appears twice in one table.  Where an entry stands in its table depends
on the statements of the document alone: a table stands at the place of its own
header, and everything else where its name is first mentioned.
-/

namespace JsonTint
namespace Toml

/-- The names of some entries, in their order. -/
def names {α : Type} (entries : List (String × α)) : List String :=
  entries.map (·.1)

/-- No name appears twice in a table, at any depth of a value. -/
inductive Value.Distinct : Value → Prop
  | string {s : String} : Distinct (.string s)
  | integer {i : Int} : Distinct (.integer i)
  | float {x : Binary64} : Distinct (.float x)
  | boolean {b : Bool} : Distinct (.boolean b)
  | dateTime {s : String} : Distinct (.dateTime s)
  | array {items : List Value} (h : ∀ v ∈ items, Distinct v) : Distinct (.array items)
  | table {entries : Entries} (hnames : (names entries).Nodup)
      (h : ∀ entry ∈ entries, Distinct entry.2) : Distinct (.table entries)

/-! ## What statements mention -/

/-- The names of a dotted key, from the outermost table on. -/
def Key.names (k : Key) : List String :=
  k.path ++ [k.name]

/-- What a statement is about, with the names that lead there from the outermost
table on. -/
inductive Mention where
  /-- The header of a table. -/
  | table (path : List String)
  /-- The header of an element of an array of tables. -/
  | element (path : List String)
  /-- An entry and its value. -/
  | entry (path : List String) (v : Value)

/-- The names that lead to what is mentioned. -/
def Mention.path : Mention → List String
  | table path => path
  | element path => path
  | entry path _ => path

/-- The names in the header of a table, if that is what is mentioned. -/
def Mention.header? : Mention → Option (List String)
  | table path => some path
  | _ => none

/-- What some statements mention, where the first of them stand below a given
header. -/
def mentions : List String → List Statement → List Mention
  | _, [] => []
  | _, .table k :: ss => .table k.names :: mentions k.names ss
  | _, .arrayTable k :: ss => .element k.names :: mentions k.names ss
  | header, .entry k v :: ss => .entry (header ++ k.names) v :: mentions header ss

/-- What the entries of an inline table mention. -/
def inlineMentions (entries : List (Key × Value)) : List Mention :=
  entries.map fun entry => .entry entry.1.names entry.2

/-! ## Places in a table -/

/-- The names of the table at a path after one more mention.  The header of a
table puts its name last, and so does anything else that mentions a new name. -/
def place (path known : List String) (m : Mention) : List String :=
  match path.isPrefixOf? m.path with
  | none | some [] => known
  | some (name :: _) =>
    if m.header? = some (path ++ [name]) then known.filter (· != name) ++ [name]
    else if name ∈ known then known
    else known ++ [name]

/-- The names of the table at a path, in the order that some mentions give
them. -/
def order (path : List String) (ms : List Mention) : List String :=
  ms.foldl (place path) []

/-- The entries of the table that some names lead to. -/
def tableAt? : List String → Entries → Option Entries
  | [], entries => some entries
  | name :: path, entries =>
    match entries.lookup name with
    | some (.table sub) => tableAt? path sub
    | _ => none

/-- The entries of the table that some names lead to from a value. -/
def Value.tableAt? : Value → List String → Option Entries
  | .table entries, path => Toml.tableAt? path entries
  | _, _ => none

/-- The entries of every table stand in the order of what is mentioned, unless the
table is part of the value that an entry is mentioned with. -/
def InPlace (ms : List Mention) (entries : Entries) : Prop :=
  ∀ path sub, tableAt? path entries = some sub →
    names sub = order path ms ∨
      ∃ q v rest, Mention.entry q v ∈ ms ∧ path = q ++ rest ∧ v.tableAt? rest = some sub

end Toml
end JsonTint
