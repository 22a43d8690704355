import JsonTint.TokenClass

/-!
# Themes

A theme gives each token class a colour and draws a frame around the
highlighted text.  Its style sheet has a rule for the frame and one for each
class.
-/

namespace JsonTint

/-- The frame around a highlighted text, as CSS values. -/
structure Frame where
  outline : String := "1px solid #ccc"
  padding : String := "5px"
  margin : String := "5px"
  deriving DecidableEq, Repr

/-- A frame and a colour for each token class. -/
structure Theme where
  frame : Frame := {}
  string : Color := TokenClass.defaultColor .string
  number : Color := TokenClass.defaultColor .number
  boolean : Color := TokenClass.defaultColor .boolean
  null : Color := TokenClass.defaultColor .null
  key : Color := TokenClass.defaultColor .key
  deriving DecidableEq, Repr

namespace Theme

/-- The theme that nothing has been changed in. -/
def standard : Theme := {}

/-- The colour of a token class. -/
def color (t : Theme) : TokenClass → Color
  | .string => t.string
  | .number => t.number
  | .boolean => t.boolean
  | .null => t.null
  | .key => t.key

/-- Gives a token class another colour. -/
def setColor (t : Theme) (cls : TokenClass) (color : Color) : Theme :=
  match cls with
  | .string => { t with string := color }
  | .number => { t with number := color }
  | .boolean => { t with boolean := color }
  | .null => { t with null := color }
  | .key => { t with key := color }

/-- The style rule of the frame. -/
def frameCss (f : Frame) : String :=
  "pre \x7boutline: " ++ f.outline ++ "; padding: " ++ f.padding ++ "; margin: " ++ f.margin ++
    "; \x7d"

/-- The style rule of a token class. -/
def classCss (t : Theme) (cls : TokenClass) : String :=
  "." ++ cls.name ++ " \x7b color: " ++ (t.color cls).css ++ "; \x7d"

/-- The style sheet of a theme. -/
def css (t : Theme) : String :=
  TokenClass.all.foldl (fun sheet cls => sheet ++ t.classCss cls) (frameCss t.frame)

/-- Setting a colour sets that of its class, and leaves the others alone. -/
@[simp]
theorem color_setColor (t : Theme) (cls other : TokenClass) (color : Color) :
    (t.setColor cls color).color other = if other = cls then color else t.color other := by
  cases cls <;> cases other <;> rfl

/-- Setting a colour leaves the frame alone. -/
@[simp]
theorem frame_setColor (t : Theme) (cls : TokenClass) (color : Color) :
    (t.setColor cls color).frame = t.frame := by
  cases cls <;> rfl

end Theme
end JsonTint
