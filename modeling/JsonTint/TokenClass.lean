import JsonTint.Color

/-!
# Token classes

A token belongs to one of five classes.  Each has a name, used in style sheets
and settings, and a colour to start with.
-/

namespace JsonTint

/-- What a token is. -/
inductive TokenClass where
  /-- A quoted text. -/
  | string
  /-- A number. -/
  | number
  /-- `true` or `false`. -/
  | boolean
  /-- `null`. -/
  | null
  /-- A quoted text with the colon behind it. -/
  | key
  deriving DecidableEq, Repr, Inhabited

namespace TokenClass

/-- The classes in the order of the style sheet. -/
def all : List TokenClass :=
  [string, number, boolean, null, key]

/-- The name of a class. -/
def name : TokenClass → String
  | string => "string"
  | number => "number"
  | boolean => "boolean"
  | null => "null"
  | key => "key"

/-- The class with a given name, in exactly this spelling. -/
def ofName? (s : String) : Option TokenClass :=
  all.find? fun cls => cls.name == s

/-- The colour of a class unless a theme says otherwise. -/
def defaultColor : TokenClass → Color
  | string => .green
  | number => .darkOrange
  | boolean => .blue
  | null => .magenta
  | key => .red

/-- A class is found by its name. -/
@[simp]
theorem ofName?_name (cls : TokenClass) : ofName? cls.name = some cls := by
  cases cls <;> rfl

end TokenClass
end JsonTint
