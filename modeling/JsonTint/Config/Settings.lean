import JsonTint.Error
import JsonTint.TokenClass

/-!
# The settings of a config file

A config file may set the output mode and, in a table of their own, eight parts
of the theme.  Settings are kept as the texts that the file gives; what they
mean is looked at later.  The fields of a file are taken in the order in which
they appear, and the first one that does not belong there is reported.
-/

namespace JsonTint

/-- The part of a theme that a setting changes. -/
inductive ThemePart where
  | color (cls : TokenClass)
  | outline
  | padding
  | margin
  deriving DecidableEq, Repr

namespace ThemePart

/-- The parts of a theme in the order of their settings. -/
def all : List ThemePart :=
  TokenClass.all.map color ++ [outline, padding, margin]

/-- The list of the parts of a theme is complete. -/
theorem mem_all (part : ThemePart) : part ∈ all := by
  rcases part with cls | - | - | -
  · cases cls <;> decide
  all_goals decide

/-- The name of the setting for a part. -/
def name : ThemePart → String
  | color cls => cls.name
  | outline => "outline"
  | padding => "padding"
  | margin => "margin"

/-- The part whose setting has a given name. -/
def ofName? (s : String) : Option ThemePart :=
  all.find? fun part => part.name == s

end ThemePart

/-- The texts given for the parts of a theme. -/
structure ThemeSettings where
  string : Option String := none
  number : Option String := none
  boolean : Option String := none
  null : Option String := none
  key : Option String := none
  outline : Option String := none
  padding : Option String := none
  margin : Option String := none
  deriving DecidableEq, Repr

/-- The settings of a config file. -/
structure Settings where
  output : Option String := none
  theme : ThemeSettings := {}
  deriving DecidableEq, Repr

namespace ThemeSettings

/-- The text given for a part. -/
def get (s : ThemeSettings) : ThemePart → Option String
  | .color .string => s.string
  | .color .number => s.number
  | .color .boolean => s.boolean
  | .color .null => s.null
  | .color .key => s.key
  | .outline => s.outline
  | .padding => s.padding
  | .margin => s.margin

/-- Gives a part a text. -/
def set (s : ThemeSettings) (part : ThemePart) (v : String) : ThemeSettings :=
  match part with
  | .color .string => { s with string := some v }
  | .color .number => { s with number := some v }
  | .color .boolean => { s with boolean := some v }
  | .color .null => { s with null := some v }
  | .color .key => { s with key := some v }
  | .outline => { s with outline := some v }
  | .padding => { s with padding := some v }
  | .margin => { s with margin := some v }

/-! ## Reading -/

/-- The text of a value that has to be one. -/
def text : Toml.Value → Except ConfigFault String
  | .string s => .ok s
  | v => .error (.wrongType v .string)

/-- Takes in a field of the theme. -/
def addField (s : ThemeSettings) (field : String × Toml.Value) :
    Except ConfigFault ThemeSettings :=
  match ThemePart.ofName? field.1 with
  | none => .error (.unknownField field.1 (ThemePart.all.map ThemePart.name))
  | some part => do
    let v ← text field.2
    return s.set part v

/-- Takes in an element of a theme that is given as an array. -/
def addElement (s : ThemeSettings) (element : ThemePart × Toml.Value) :
    Except ConfigFault ThemeSettings := do
  let v ← text element.2
  return s.set element.1 v

/-- The theme settings that a value gives: the fields of a table, or the
elements of an array in the order of the settings. -/
def ofValue (v : Toml.Value) : Except ConfigFault ThemeSettings :=
  match v with
  | .array items => (ThemePart.all.zip items).foldlM addElement {}
  | v =>
    match v.entries? with
    | some fields => fields.foldlM addField {}
    | none => .error (.wrongType v .themeSettings)

end ThemeSettings

namespace Settings

/-- Takes in a field of the file. -/
def addField (s : Settings) (field : String × Toml.Value) : Except ConfigFault Settings := do
  if field.1 = "output" then
    let v ← ThemeSettings.text field.2
    return { s with output := some v }
  else if field.1 = "theme" then
    let theme ← ThemeSettings.ofValue field.2
    return { s with theme }
  else
    throw (.unknownField field.1 ["output", "theme"])

/-- The settings that the fields of a file give. -/
def ofEntries (fields : Toml.Entries) : Except ConfigFault Settings :=
  fields.foldlM addField {}

end Settings
end JsonTint
