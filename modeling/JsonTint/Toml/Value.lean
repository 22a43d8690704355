import JsonTint.Decimal.Binary64

/-!
# Values of a TOML document

No name appears twice in one table.  A table lists its entries in the order of
the document: a table with a header of its own stands at that header, any other
entry where its name first appears.
-/

namespace JsonTint
namespace Toml

/-- A TOML value. -/
inductive Value where
  | string (s : String)
  | integer (i : Int)
  | float (x : Binary64)
  | boolean (b : Bool)
  /-- A date, a time of day or both, as written. -/
  | dateTime (s : String)
  | array (items : List Value)
  | table (entries : List (String × Value))
  deriving Repr

/-- The entries of a table. -/
abbrev Entries := List (String × Value)

/-- The name under which a date or time shows itself to a reader that looks
for the entries of a table. -/
def dateTimeField : String :=
  "$__toml_private_datetime"

/-- The entries of a value that has entries. -/
def Value.entries? : Value → Option Entries
  | .table entries => some entries
  | .dateTime s => some [(dateTimeField, .string s)]
  | _ => none

end Toml
end JsonTint
