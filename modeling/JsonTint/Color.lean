import JsonTint.Text.Blank
import JsonTint.Text.Reader

/-!
# Colours

A colour is one of ten named ones or a triple of components.  Both have
components between 0 and 255 and a CSS value; a triple equal to a named colour
is still a different colour.
-/

namespace JsonTint

/-- A display colour. -/
inductive Color where
  | black
  | white
  | gray
  | red
  | green
  | blue
  | cyan
  | yellow
  | magenta
  | darkOrange
  | rgb (r g b : UInt8)
  deriving DecidableEq, Repr, Inhabited

namespace Color

/-- Red, green and blue as CSS defines them. -/
def components : Color → UInt8 × UInt8 × UInt8
  | black => (0, 0, 0)
  | white => (255, 255, 255)
  | gray => (128, 128, 128)
  | red => (255, 0, 0)
  | green => (0, 128, 0)
  | blue => (0, 0, 255)
  | cyan => (0, 255, 255)
  | yellow => (255, 255, 0)
  | magenta => (255, 0, 255)
  | darkOrange => (255, 140, 0)
  | rgb r g b => (r, g, b)

/-- A component as two lower-case hexadecimal digits. -/
def hexByte (b : UInt8) : List Char :=
  [Nat.digitChar (b.toNat / 16), Nat.digitChar (b.toNat % 16)]

/-- The CSS value of a colour. -/
def css : Color → String
  | black => "black"
  | white => "white"
  | gray => "gray"
  | red => "red"
  | green => "green"
  | blue => "blue"
  | cyan => "cyan"
  | yellow => "yellow"
  | magenta => "magenta"
  | darkOrange => "darkorange"
  | rgb r g b => String.ofList ('#' :: (hexByte r ++ hexByte g ++ hexByte b))

/-! ## Reading a colour -/

/-- The names a colour can be given by; gray has two spellings. -/
def names : List (String × Color) :=
  [("black", black), ("white", white), ("gray", gray), ("grey", gray), ("red", red),
    ("green", green), ("blue", blue), ("cyan", cyan), ("yellow", yellow),
    ("magenta", magenta), ("darkorange", darkOrange)]

/-- The colour with a given lower-case name. -/
def ofName? (name : List Char) : Option Color :=
  (names.find? fun entry => entry.1.toList == name).map (·.2)

/-- The component that two hexadecimal digits spell. -/
def component (high low : Char) : UInt8 :=
  UInt8.ofNat (16 * digitValue high + digitValue low)

/-- The colour that three or six hexadecimal digits spell; each of three counts
twice. -/
def ofHex? (digits : List Char) : Option Color :=
  if digits.all isHexDigit then
    match digits with
    | [r, g, b] => some (rgb (component r r) (component g g) (component b b))
    | [r, r', g, g', b, b'] => some (rgb (component r r') (component g g') (component b b'))
    | _ => none
  else none

/-- Reads a name, `#rgb` or `#rrggbb`, in any letter case and with blanks
around it. -/
def parse? (s : String) : Option Color :=
  let name := Text.foldName s.toList
  match ofName? name with
  | some color => some color
  | none =>
    match name with
    | '#' :: digits => ofHex? digits
    | _ => none

end Color
end JsonTint
