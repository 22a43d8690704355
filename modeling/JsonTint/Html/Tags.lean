/-!
# The tags of an HTML text

Every less-than sign of an HTML text begins a tag, which goes on up to the next
greater-than sign.
-/

namespace JsonTint
namespace Html

/-- A text up to and including its first `>`. -/
def throughClose : List Char → List Char
  | [] => []
  | c :: s => if c = '>' then [c] else c :: throughClose s

/-- The tags that begin at the `<` signs of a text, one for each of them. -/
def tags : List Char → List (List Char)
  | [] => []
  | c :: s => if c = '<' then (c :: throughClose s) :: tags s else tags s

/-! ## Rows of tags and texts -/

/-- A tag, given by what stands in its brackets, or a text between tags. -/
inductive Markup where
  | text (w : List Char)
  | tag (name : List Char)
  deriving DecidableEq, Repr

namespace Markup

/-- A tag with its brackets. -/
def bracket (name : List Char) : List Char :=
  '<' :: name ++ ['>']

/-- A tag or a text as HTML. -/
def render : Markup → List Char
  | text w => w
  | tag name => bracket name

/-- The HTML text of a row. -/
def html (ms : List Markup) : List Char :=
  ms.flatMap render

/-- The tags of a row. -/
def tagsOf (ms : List Markup) : List (List Char) :=
  ms.flatMap fun
    | text _ => []
    | tag name => [bracket name]

/-- Whether a text holds no less-than sign, or a tag no bracket but its own. -/
def IsPlain : Markup → Prop
  | text w => '<' ∉ w
  | tag name => '<' ∉ name ∧ '>' ∉ name

instance (m : Markup) : Decidable m.IsPlain :=
  match m with
  | .text w => inferInstanceAs (Decidable ('<' ∉ w))
  | .tag name => inferInstanceAs (Decidable ('<' ∉ name ∧ '>' ∉ name))

end Markup
end Html
end JsonTint
