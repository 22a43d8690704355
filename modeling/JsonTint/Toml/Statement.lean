import JsonTint.Toml.Quoted
import JsonTint.Toml.Scalar
import JsonTint.Toml.Tree

/-!
# The statements of a TOML document

A document is a row of statements, each on lines of its own: a table header,
the header of an element of an array of tables, or a key and its value.
-/

namespace JsonTint
namespace Toml

open Reader

/-- The names of a dotted key: those in front, and the last one. -/
structure Key where
  path : List String
  name : String
  deriving DecidableEq, Repr

/-- A statement of a document. -/
inductive Statement where
  | table (key : Key)
  | arrayTable (key : Key)
  | entry (key : Key) (v : Value)

/-! ## Blanks -/

/-- A comment, up to the end of its line. -/
def comment : Reader Unit := do
  char '#'
  let _ ← takeWhile isPlainChar

/-- The end of a line, or of the document. -/
def lineEnd : Reader Unit :=
  newline <|> atEnd

/-- What may follow a statement on its line. -/
def restOfLine : Reader Unit := do
  spaces
  let _ ← Reader.option comment
  lineEnd

/-- Blanks, comments and line breaks. -/
def blanks : Reader Unit := do
  let _ ← many ((do let _ ← takeWhile1 isSpace) <|> newline <|> comment)

/-! ## Keys -/

/-- Whether a character may stand in a name without quotes. -/
def isBareChar (c : Char) : Bool :=
  c.isAlphanum || c == '_' || c == '-'

/-- A name, with or without quotes. -/
def keyName : Reader String := do
  match ← peek? with
  | some '"' => return String.ofList (← basicString)
  | some '\'' => return String.ofList (← literalString)
  | _ => return String.ofList (← takeWhile1 isBareChar)

/-- The number of names in a dotted key, and of arrays and inline tables around
a value, stays below this bound. -/
def nestingLimit : Nat := 80

/-- Names with points between them, and with spaces around each. -/
def key : Reader Key := do
  let spaced : Reader String := do
    spaces
    let name ← keyName
    spaces
    return name
  let names ← sepBy1 spaced (char '.')
  guard (names.length < nestingLimit)
  match names.reverse with
  | [] => failure
  | name :: path => return ⟨path.reverse, name⟩

/-! ## Values -/

/-- The inline table with the given entries, unless they contradict each
other. -/
def inlineTable (entries : List (Key × Value)) : Option Value :=
  let branches := entries.foldlM (fun branches (entry : Key × Value) =>
    Tree.setDotted entry.1.name entry.2 entry.1.path branches) []
  branches.map fun branches => .table (Tree.toEntries branches)

/-- The entries of an inline table, from left to right, behind its opening
brace. -/
def inlineEntries (value : Reader Value) : Reader (List (Key × Value)) := do
  let entry : Reader (Key × Value) := do
    let k ← key
    char '='
    spaces
    let v ← value
    spaces
    return (k, v)
  let entries ← Reader.option (sepBy1 entry (char ','))
  spaces
  char '\x7d'
  return entries.getD []

/-- A value that holds no other values. -/
def scalar : Reader Value := do
  match ← peek? with
  | some '"' | some '\'' => return .string (String.ofList (← quoted))
  | _ => unquoted

/-- A value inside which arrays and inline tables nest at most `depth` deep. -/
def value : Nat → Reader Value
  | 0 => scalar
  | depth + 1 => do
    match ← peek? with
    | some '[' =>
      char '['
      let item : Reader Value := do
        blanks
        let v ← value depth
        blanks
        return v
      let items ← Reader.option (do
        let items ← sepBy1 item (char ',')
        let _ ← Reader.option (char ',')
        return items)
      blanks
      char ']'
      return .array (items.getD [])
    | some '\x7b' =>
      char '\x7b'
      let entries ← inlineEntries (value depth)
      match inlineTable entries with
      | some v => return v
      | none => failure
    | _ => scalar

/-! ## Statements -/

/-- A header or an entry, with the rest of its line. -/
def statement : Reader Statement := do
  match ← remaining with
  | '[' :: '[' :: _ =>
    text ['[', '[']
    let k ← key
    text [']', ']']
    restOfLine
    return .arrayTable k
  | '[' :: _ =>
    char '['
    let k ← key
    char ']'
    restOfLine
    return .table k
  | _ =>
    let k ← key
    char '='
    spaces
    let v ← value (nestingLimit - 1)
    restOfLine
    return .entry k v

/-- An empty line or a comment, which is no statement, or a statement. -/
def line : Reader (Option Statement) := do
  let found ← (do newline; return none) <|> (do comment; lineEnd; return none) <|>
    (do return some (← statement))
  spaces
  return found

/-- All statements of a document. -/
def statements : Reader (List Statement) := do
  let _ ← Reader.option (char '\ufeff')
  spaces
  let found ← many line
  atEnd
  return found.filterMap id

end Toml
end JsonTint
