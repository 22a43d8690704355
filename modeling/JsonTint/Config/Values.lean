import JsonTint.Config.Basic
import JsonTint.Text.Spelling

/-!
# The values that settings can have

Each of the nine settings has texts that are valid for it and says what they
stand for: an output mode, a colour, or the text itself.  The settings are
checked in one order, whatever their order in the file.
-/

namespace JsonTint

/-- The names of an output mode in lower case. -/
def OutputMode.spellings : OutputMode → List String
  | html => ["html"]
  | page => ["page"]
  | ansi => ["ansi", "terminal"]

/-- A text names an output mode, with blanks around the name and in any letter
case. -/
def OutputMode.NamedBy (mode : OutputMode) (v : String) : Prop :=
  ∃ name ∈ mode.spellings, Text.SpellsName (Text.trim v.toList) name

/-- The value of a part of a theme: a colour, or a text for the frame. -/
def Theme.part (t : Theme) : ThemePart → Color ⊕ String
  | .color cls => .inl (t.color cls)
  | .outline => .inr t.frame.outline
  | .padding => .inr t.frame.padding
  | .margin => .inr t.frame.margin

/-- A text stands for a value of a part: a colour is read, and a text for the
frame is taken as it is unless it holds a less-than sign. -/
inductive ThemePart.Reads : ThemePart → String → Color ⊕ String → Prop
  | color {cls : TokenClass} {v : String} {c : Color} (h : Color.parse v = .ok c) :
      Reads (.color cls) v (.inl c)
  | outline {v : String} (h : '<' ∉ v.toList) : Reads .outline v (.inr v)
  | padding {v : String} (h : '<' ∉ v.toList) : Reads .padding v (.inr v)
  | margin {v : String} (h : '<' ∉ v.toList) : Reads .margin v (.inr v)

/-- A value of a part is the one that its text stands for, or the standard one if
it has no text. -/
def ThemePart.Follows (part : ThemePart) (standard x : Color ⊕ String) : Option String → Prop
  | none => x = standard
  | some v => part.Reads v x

/-- Each part of a theme has the value of its own setting, or that of the
standard theme if it is not set. -/
def Theme.Follows (t : Theme) (s : ThemeSettings) : Prop :=
  ∀ part : ThemePart, part.Follows (Theme.standard.part part) (t.part part) (s.get part)

/-- The output mode is the one that is named, or HTML if none is. -/
def OutputMode.Follows (mode : OutputMode) : Option String → Prop
  | none => mode = html
  | some v => mode.NamedBy v

/-! ## Checks -/

/-- One of the settings of a config file. -/
inductive Setting where
  | output
  | part (part : ThemePart)
  deriving DecidableEq, Repr

namespace Setting

/-- The settings in the order in which they are checked. -/
def order : List Setting :=
  [output, part (.color .string), part (.color .number), part (.color .boolean),
    part (.color .null), part (.color .key), part .outline, part .padding, part .margin]

/-- The text that is given for a setting. -/
def text (s : Settings) : Setting → Option String
  | output => s.output
  | part p => s.theme.get p

/-- A text is valid for a setting. -/
def Accepts : Setting → String → Prop
  | output, v => ∃ mode : OutputMode, mode.NamedBy v
  | part p, v => ∃ x, p.Reads v x

/-- The error that reports a text for a setting. -/
def fault : Setting → String → Error
  | output, v => .invalidOutput v
  | part (.color _), v => .invalidColor v
  | part _, v => .invalidStyle v

/-- A setting is not set, or its text is valid. -/
def Valid (s : Settings) (x : Setting) : Prop :=
  ∀ v, x.text s = some v → x.Accepts v

/-- A setting has a text that is not valid, and the error that reports it. -/
def Faulty (s : Settings) (x : Setting) (e : Error) : Prop :=
  ∃ v, x.text s = some v ∧ ¬ x.Accepts v ∧ e = x.fault v

end Setting
end JsonTint
