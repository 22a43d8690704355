import JsonTint.Html
import JsonTint.Text.Replace

/-!
# The text in highlighted HTML

A highlighted fragment is a row of runs, some of them in the tags of a class.
To get the text back, a reader deletes the tags and then replaces the entities,
one kind after the other.
-/

namespace JsonTint
namespace Html

open Text

/-! ## Fragments -/

/-- A text that holds no angle bracket. -/
def IsRun (w : List Char) : Prop :=
  '<' ∉ w ∧ '>' ∉ w

/-- A row of runs, of which some, none of them empty, stand in a `span` with the
name of a class.  No `span` stands in another one. -/
inductive Fragment : List Char → Prop where
  | nil : Fragment []
  | run {w html : List Char} (hw : IsRun w) (h : Fragment html) : Fragment (w ++ html)
  | span {cls : TokenClass} {w html : List Char} (hne : w ≠ []) (hw : IsRun w)
      (h : Fragment html) :
      Fragment ("<span class=\"".toList ++ cls.name.toList ++ "\">".toList ++ w ++
        "</span>".toList ++ html)

/-! ## Tags and entities -/

/-- What a tag that opens a token begins with. -/
def openTagStart : List Char :=
  "<span class=\"".toList

/-- What it ends with. -/
def openTagEnd : List Char :=
  "\">".toList

/-- The letters that a class name is made of. -/
def isNameLetter (c : Char) : Bool :=
  'a' ≤ c && c ≤ 'z'

/-- How long the tag at the front of a text is, if there is one: a tag that
closes a token, or one that opens a token of some class, whatever its name. -/
def tagLength? (s : List Char) : Option Nat :=
  if closeTag.isPrefixOf s then some closeTag.length
  else if openTagStart.isPrefixOf s then
    let behind := s.drop openTagStart.length
    let name := behind.takeWhile isNameLetter
    if name ≠ [] ∧ openTagEnd.isPrefixOf (behind.drop name.length) then
      some (openTagStart.length + name.length + openTagEnd.length)
    else none
  else none

/-- A text without the tags of tokens. -/
def stripTags (s : List Char) : List Char :=
  replacePieces tagLength? [] s

/-- A text with its entities replaced, those of `<` first and those of `&`
last. -/
def unescape (s : List Char) : List Char :=
  replace "&amp;".toList ['&'] (replace "&gt;".toList ['>'] (replace "&lt;".toList ['<'] s))

end Html
end JsonTint
