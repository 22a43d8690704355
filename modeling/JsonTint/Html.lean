import JsonTint.Segment

/-!
# Highlighted HTML

A text is escaped for use inside an HTML element, and then each of its tokens
is wrapped in a `span` that carries the name of its class.  Every text can be
highlighted; one that is not JSON has fewer tokens.
-/

namespace JsonTint
namespace Html

/-! ## Escaping -/

/-- The entity of a character that may not stand for itself, or the character. -/
def escapeChar : Char → List Char
  | '&' => "&amp;".toList
  | '<' => "&lt;".toList
  | '>' => "&gt;".toList
  | c => [c]

/-- A text with `&`, `<` and `>` replaced by their entities. -/
def escapeText (s : List Char) : List Char :=
  s.flatMap escapeChar

/-- A text escaped for use inside an HTML element. -/
def escape (s : String) : String :=
  String.ofList (escapeText s.toList)

/-! ## Highlighting -/

/-- The tag that opens a token of a class. -/
def openTag (cls : TokenClass) : List Char :=
  "<span class=\"".toList ++ cls.name.toList ++ "\">".toList

/-- The tag that closes a token. -/
def closeTag : List Char :=
  "</span>".toList

/-- A segment of escaped text as HTML. -/
def renderSegment : Segment → List Char
  | .gap s => s
  | .token cls s => openTag cls ++ s ++ closeTag

/-- Highlights a text with the tokens that its escaped form has. -/
def highlightText (t : Tokenizer) (s : List Char) : List Char :=
  (t.segments (escapeText s)).flatMap renderSegment

/-- Highlights a text with the rules of a tokenizer. -/
def highlightWith (t : Tokenizer) (s : String) : String :=
  String.ofList (highlightText t s.toList)

/-- Highlights a JSON text. -/
def highlight (s : String) : String :=
  highlightWith Tokenizer.json s

end Html
end JsonTint
