/-!
# Blanks around a name, and its letter case

Names are read with the blanks at both ends removed and without regard to
letter case.  The blanks are the characters with the Unicode property
White_Space; U+FEFF is not one of them.
-/

namespace JsonTint
namespace Text

/-- The characters with the property White_Space, as ranges. -/
def whiteSpaceRanges : List (Char × Char) :=
  [('\t', '\r'), (' ', ' '), ('\u0085', '\u0085'), ('\u00a0', '\u00a0'),
    ('\u1680', '\u1680'), ('\u2000', '\u200a'), ('\u2028', '\u2029'),
    ('\u202f', '\u202f'), ('\u205f', '\u205f'), ('\u3000', '\u3000')]

/-- Whether a character lies in one of some ranges. -/
def inRanges (ranges : List (Char × Char)) (c : Char) : Bool :=
  ranges.any fun r => r.1 ≤ c && c ≤ r.2

/-- Whether a character has the property White_Space. -/
def isBlank (c : Char) : Bool :=
  inRanges whiteSpaceRanges c

/-- A text without the blanks at its two ends. -/
def trim (s : List Char) : List Char :=
  ((s.dropWhile isBlank).reverse.dropWhile isBlank).reverse

/-- Lower case, as far as an ASCII name can tell: the ASCII capitals and the
Kelvin sign have ASCII lower-case forms, no other character has one. -/
def foldChar (c : Char) : Char :=
  if c = '\u212a' then 'k' else c.toLower

/-- The form of a name in which its spellings are compared. -/
def foldName (s : List Char) : List Char :=
  (trim s).map foldChar

end Text
end JsonTint
