import JsonTint.Config.Values
import JsonTint.Steps

/-!
# The shape of a config file

A config file may have two fields: `output`, which is a text, and `theme`, which
is a table of texts or a row of them.  Each of the fields that does not have this
shape is at fault, and so is the whole file for the first fault in it.
-/

namespace JsonTint

/-- The settings of a theme by name, in the order in which a row gives them. -/
def ThemePart.named : List (String × ThemePart) :=
  [("string", .color .string), ("number", .color .number), ("boolean", .color .boolean),
    ("null", .color .null), ("key", .color .key), ("outline", .outline), ("padding", .padding),
    ("margin", .margin)]

/-- The names of the settings of a theme. -/
def ThemePart.names : List String :=
  ["string", "number", "boolean", "null", "key", "outline", "padding", "margin"]

/-! ## Files that have the shape -/

/-- A value is a text. -/
inductive Toml.Value.IsText : Toml.Value → Prop
  | string (w : String) : IsText (.string w)

/-- A value for a theme has the documented shape.  There are eight settings, and
the elements of a row behind the eighth are not looked at. -/
inductive ThemeShape : Toml.Value → Prop
  | table {fields : Toml.Entries}
      (h : ∀ field ∈ fields, field.1 ∈ ThemePart.names ∧ field.2.IsText) :
      ThemeShape (.table fields)
  | array {items : List Toml.Value} (h : ∀ v ∈ items.take 8, v.IsText) :
      ThemeShape (.array items)

/-- A field of a config file has the documented shape. -/
inductive FieldShape : String × Toml.Value → Prop
  | output {v : Toml.Value} (h : v.IsText) : FieldShape ("output", v)
  | theme {v : Toml.Value} (h : ThemeShape v) : FieldShape ("theme", v)

/-- A value for a theme gives a part a text: in a table under the name of the
part, and in a row at its place. -/
inductive ThemePart.Given : ThemePart → Toml.Value → String → Prop
  | field {fields : Toml.Entries} {name w : String} {part : ThemePart}
      (hname : (name, part) ∈ named) (h : (name, .string w) ∈ fields) :
      Given part (.table fields) w
  | element {items : List Toml.Value} {i : Nat} {name w : String} {part : ThemePart}
      (hname : named[i]? = some (name, part)) (h : items[i]? = some (.string w)) :
      Given part (.array items) w

/-- A field of a config file gives a setting a text. -/
inductive Setting.Given : Setting → String × Toml.Value → String → Prop
  | output {w : String} : Given .output ("output", .string w) w
  | part {p : ThemePart} {v : Toml.Value} {w : String} (h : p.Given v w) :
      Given (.part p) ("theme", v) w

/-- Settings are those of a file: a setting has the text that the file gives, and
none if the file gives none. -/
def Settings.Of (s : Settings) (fields : Toml.Entries) : Prop :=
  ∀ (x : Setting) (w : String), x.text s = some w ↔ ∃ field ∈ fields, x.Given field w

/-! ## Faults -/

/-- A value that has to be a text is none. -/
inductive TextFault : Toml.Value → ConfigFault → Prop
  | wrongType {v : Toml.Value} (h : ¬ v.IsText) : TextFault v (.wrongType v .string)

/-- A field of a theme has an unknown name, or else a value that is no text. -/
inductive ThemeFieldFault : String × Toml.Value → ConfigFault → Prop
  | unknown {name : String} {v : Toml.Value} (h : name ∉ ThemePart.names) :
      ThemeFieldFault (name, v) (.unknownField name ThemePart.names)
  | value {name : String} {v : Toml.Value} {fault : ConfigFault} (hname : name ∈ ThemePart.names)
      (h : TextFault v fault) : ThemeFieldFault (name, v) fault

/-- A value for a theme has a first fault in it, or is neither a table nor a row.
A date or time is taken for a table with one field. -/
inductive ThemeFault : Toml.Value → ConfigFault → Prop
  | table {fields : Toml.Entries} {fault : ConfigFault}
      (h : FirstFault ThemeFieldFault fields fault) : ThemeFault (.table fields) fault
  | array {items : List Toml.Value} {fault : ConfigFault}
      (h : FirstFault TextFault (items.take 8) fault) : ThemeFault (.array items) fault
  | dateTime {s : String} :
      ThemeFault (.dateTime s) (.unknownField "$__toml_private_datetime" ThemePart.names)
  | string {s : String} : ThemeFault (.string s) (.wrongType (.string s) .themeSettings)
  | integer {i : Int} : ThemeFault (.integer i) (.wrongType (.integer i) .themeSettings)
  | float {x : Binary64} : ThemeFault (.float x) (.wrongType (.float x) .themeSettings)
  | boolean {b : Bool} : ThemeFault (.boolean b) (.wrongType (.boolean b) .themeSettings)

/-- A field of a config file has an unknown name, or else a value at fault. -/
inductive FieldFault : String × Toml.Value → ConfigFault → Prop
  | unknown {name : String} {v : Toml.Value} (houtput : name ≠ "output") (htheme : name ≠ "theme") :
      FieldFault (name, v) (.unknownField name ["output", "theme"])
  | output {v : Toml.Value} {fault : ConfigFault} (h : TextFault v fault) :
      FieldFault ("output", v) fault
  | theme {v : Toml.Value} {fault : ConfigFault} (h : ThemeFault v fault) :
      FieldFault ("theme", v) fault

/-! ## The order of entries -/

/-- Two values are the same up to the order of the entries, if they are tables. -/
inductive Toml.Value.Rearranged : Toml.Value → Toml.Value → Prop
  | refl (v : Toml.Value) : Rearranged v v
  | table {entries entries' : Toml.Entries} (h : entries.Perm entries') :
      Rearranged (.table entries) (.table entries')

/-- Two files have the same fields up to the order of the fields and of the
entries of the tables in them. -/
def Rearranged (fields fields' : Toml.Entries) : Prop :=
  ∃ between, fields.Perm between ∧
    List.Forall₂ (fun field field' => field.1 = field'.1 ∧ field.2.Rearranged field'.2)
      between fields'

end JsonTint
