import JsonTint.Segment
import JsonTint.Text.Lossy
import JsonTint.Theme

/-!
# Highlighted terminal text

For a terminal, each token is written between an escape sequence that sets its
colour and one that sets everything back.  The text itself is not changed.
-/

namespace JsonTint
namespace Ansi

open Text

/-- The character that begins an escape sequence. -/
def escapeChar : Char := '\x1b'

/-- The digits of a component, in decimal. -/
def component (b : UInt8) : List Char :=
  Nat.toDigits 10 b.toNat

/-- The sequence that sets the colour of what follows. -/
def setColor (color : Color) : List Char :=
  let (r, g, b) := color.components
  escapeChar :: "[38;2;".toList ++ component r ++ ';' :: component g ++ ';' :: component b ++ ['m']

/-- The sequence that ends a colour. -/
def reset : List Char :=
  [escapeChar, '[', '0', 'm']

/-- What is written for a segment, piece by piece. -/
def segmentChunks (theme : Theme) : Segment → List (List Char)
  | .gap s => [s]
  | .token cls s => [setColor (theme.color cls), s, reset]

/-- What is written for a text, piece by piece. -/
def chunks (t : Tokenizer) (theme : Theme) (s : List Char) : List (List Char) :=
  (t.segments s).flatMap (segmentChunks theme)

/-- A text highlighted for a terminal, with the rules of a tokenizer. -/
def highlightWith (t : Tokenizer) (theme : Theme) (s : String) : String :=
  String.ofList (chunks t theme s.toList).flatten

/-- A JSON text highlighted for a terminal, as the bytes that are written for it
are read. -/
def highlight (theme : Theme) (s : String) : String :=
  String.ofList (decodeLossy ((chunks Tokenizer.json theme s.toList).flatMap toBytes))

end Ansi
end JsonTint
