import JsonTint.Rule.Json

/-!
# Tokenizers

A tokenizer is a list of rules in the order they are tried: higher priorities
first, and rules of equal priority in the order they were added.
-/

namespace JsonTint

/-- A piece of a text, given by its byte offsets, and its class. -/
structure Token where
  start : Nat
  stop : Nat
  cls : TokenClass
  deriving DecidableEq, Repr

/-- The text of a token within the text it was found in. -/
def Token.text (t : Token) (s : List Char) : List Char :=
  Text.slice s t.start t.stop

/-- Rules in the order they are tried. -/
structure Tokenizer where
  rules : List Rule := []

namespace Tokenizer

/-- The tokenizer without rules. -/
def empty : Tokenizer where
  rules := []

/-- Puts a rule behind the rules of at least its priority. -/
def insertRule (r : Rule) : List Rule → List Rule
  | [] => [r]
  | first :: rest =>
    if first.priority < r.priority then r :: first :: rest
    else first :: insertRule r rest

/-- Adds a rule at the place its priority gives it. -/
def add (t : Tokenizer) (r : Rule) : Tokenizer where
  rules := insertRule r t.rules

/-- Adds rules one after the other. -/
def addAll (t : Tokenizer) (rs : List Rule) : Tokenizer :=
  rs.foldl add t

/-- The tokenizer for JSON. -/
def json : Tokenizer :=
  empty.addAll Rule.json

@[simp]
theorem rules_json : json.rules = Rule.json :=
  rfl

end Tokenizer
end JsonTint
