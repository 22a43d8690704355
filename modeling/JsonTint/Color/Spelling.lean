import JsonTint.Color
import JsonTint.Text.Spelling

/-!
# The texts that spell a colour

A colour is spelled by one of its names, by six hexadecimal digits behind a
hash, or by three digits that stand for themselves doubled.
-/

namespace JsonTint
namespace Color

/-- The names of a colour in lower case. -/
def spellings : Color → List String
  | black => ["black"]
  | white => ["white"]
  | gray => ["gray", "grey"]
  | red => ["red"]
  | green => ["green"]
  | blue => ["blue"]
  | cyan => ["cyan"]
  | yellow => ["yellow"]
  | magenta => ["magenta"]
  | darkOrange => ["darkorange"]
  | rgb _ _ _ => []

/-- A text without blanks around it spells a colour.  Each component is the
number that its two digits have in base 16. -/
inductive Spells : List Char → Color → Prop
  | name {w : List Char} {name : String} {c : Color} (hname : name ∈ c.spellings)
      (h : Text.SpellsName w name) : Spells w c
  | long {r r' g g' b b' : Char} {x y z : UInt8}
      (hdigits : [r, r', g, g', b, b'].all isHexDigit)
      (hx : x.toNat = 16 * digitValue r + digitValue r')
      (hy : y.toNat = 16 * digitValue g + digitValue g')
      (hz : z.toNat = 16 * digitValue b + digitValue b') :
      Spells ['#', r, r', g, g', b, b'] (rgb x y z)
  | short {r g b : Char} {c : Color} (h : Spells ['#', r, r, g, g, b, b] c) :
      Spells ['#', r, g, b] c

end Color
end JsonTint
