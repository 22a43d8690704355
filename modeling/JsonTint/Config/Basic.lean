import JsonTint.Config.Settings
import JsonTint.Theme
import JsonTint.Toml.Document

/-!
# Configurations

A configuration is what the settings of a config file mean: an output mode and
a theme.  All settings are checked when the file is read, in a fixed order: the
output mode, then the colours, then the frame.
-/

namespace JsonTint

/-- What is written for a text. -/
inductive OutputMode where
  /-- An HTML fragment. -/
  | html
  /-- A standalone HTML page with its style sheet. -/
  | page
  /-- Coloured text for a terminal. -/
  | ansi
  deriving DecidableEq, Repr, Inhabited

namespace OutputMode

/-- The names a mode can be given by; the last mode has two. -/
def names : List (String × OutputMode) :=
  [("html", html), ("page", page), ("ansi", ansi), ("terminal", ansi)]

/-- Reads the name of a mode, in any letter case and with blanks around it. -/
def parse? (s : String) : Option OutputMode :=
  let name := Text.foldName s.toList
  (names.find? fun entry => entry.1.toList == name).map (·.2)

/-- Reads the name of a mode, or reports it. -/
def parse (s : String) : Except Error OutputMode :=
  match parse? s with
  | some mode => .ok mode
  | none => .error (.invalidOutput s)

end OutputMode

/-- Reads a colour, or reports it. -/
def Color.parse (s : String) : Except Error Color :=
  match Color.parse? s with
  | some color => .ok color
  | none => .error (.invalidColor s)

/-- Accepts a text for a frame.  It ends up inside a style element, which a
less-than sign could close. -/
def Frame.parseValue (s : String) : Except Error String :=
  if s.toList.contains '<' then .error (.invalidStyle s) else .ok s

namespace ThemeSettings

/-- Gives a part of a theme the value that a text stands for. -/
def applyPart (t : Theme) (part : ThemePart) (s : String) : Except Error Theme :=
  match part with
  | .color cls => do
    let color ← Color.parse s
    return t.setColor cls color
  | .outline => do
    let v ← Frame.parseValue s
    return { t with frame.outline := v }
  | .padding => do
    let v ← Frame.parseValue s
    return { t with frame.padding := v }
  | .margin => do
    let v ← Frame.parseValue s
    return { t with frame.margin := v }

/-- Gives a part of a theme the value of its setting, if it is set. -/
def applySetting (s : ThemeSettings) (t : Theme) (part : ThemePart) : Except Error Theme :=
  match s.get part with
  | none => .ok t
  | some v => applyPart t part v

/-- The theme with all parts that are set. -/
def toTheme (s : ThemeSettings) : Except Error Theme :=
  ThemePart.all.foldlM (applySetting s) Theme.standard

end ThemeSettings

/-- The settings of a file and what they mean. -/
structure Config where
  settings : Settings := {}
  mode : OutputMode := .html
  theme : Theme := .standard
  deriving DecidableEq, Repr

namespace Config

/-- The output mode that is set, or else HTML. -/
def modeOf (s : Settings) : Except Error OutputMode :=
  match s.output with
  | none => .ok .html
  | some name => OutputMode.parse name

/-- Checks all settings. -/
def ofSettings (s : Settings) : Except Error Config := do
  let mode ← modeOf s
  let theme ← s.theme.toTheme
  return ⟨s, mode, theme⟩

/-- The settings that the text of a config file gives. -/
def readSettings (s : String) : Except Error Settings :=
  match Toml.parse? s.toList with
  | none => .error (.config .malformed)
  | some fields =>
    match Settings.ofEntries fields with
    | .ok settings => .ok settings
    | .error fault => .error (.config fault)

/-- Reads the text of a config file and checks all settings. -/
def parse (s : String) : Except Error Config := do
  let settings ← readSettings s
  ofSettings settings

end Config
end JsonTint
