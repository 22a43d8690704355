import JsonTint.Ansi
import JsonTint.Text.Replace

/-!
# Reading terminal text

A reader that knows two escape sequences, the one that sets a colour and the one
that ends it.  Text in a colour is text between these two; a second colour
before the end of the first one, an end without a colour, a colour without an
end and any other sequence are refused.
-/

namespace JsonTint
namespace Ansi

open Text

/-! ## Runs -/

/-- Red, green and blue. -/
abbrev Components :=
  UInt8 × UInt8 × UInt8

/-- A piece of text on a terminal, in no colour or in one with the given
components. -/
inductive Run where
  | plain (s : List Char)
  | colored (components : Components) (s : List Char)
  deriving DecidableEq, Repr

/-- The text of a run. -/
def Run.text : Run → List Char
  | plain s => s
  | colored _ s => s

/-- The runs of a text from the offset `last` on, with the tokens found there:
each token is in the colour of its class, and everything else in none. -/
def runsFrom (theme : Theme) (s : List Char) : Nat → List Token → List Run
  | last, [] => [.plain (slice s last (byteLength s))]
  | last, tok :: toks =>
    .plain (slice s last tok.start) :: .colored (theme.color tok.cls).components (tok.text s) ::
      runsFrom theme s tok.stop toks

/-! ## Escape sequences -/

/-- What an escape sequence says. -/
inductive Order where
  | setColor (components : Components)
  | reset
  deriving DecidableEq, Repr

/-- The number below 256 that some digits are, in decimal. -/
def component? (digits : List Char) : Option UInt8 :=
  let n := Nat.ofDigitChars 10 digits 0
  if digits ≠ [] ∧ digits.all Char.isDigit ∧ n < 256 then some (UInt8.ofNat n) else none

/-- What a sequence with these parameters says. -/
def order? (parameters : List Char) : Option Order :=
  match parameters.splitOn ';' with
  | [['0']] => some .reset
  | [['3', '8'], ['2'], r, g, b] => do
    return .setColor (← component? r, ← component? g, ← component? b)
  | _ => none

/-- The characters that the parameters of a sequence are made of. -/
def isParameter (c : Char) : Bool :=
  c.isDigit || c == ';'

/-- The parameters of the sequence whose escape character stands before a text,
and what stands behind the sequence. -/
def splitSequence? : List Char → Option (List Char × List Char)
  | '[' :: s =>
    let parameters := s.takeWhile isParameter
    match s.drop parameters.length with
    | 'm' :: behind => some (parameters, behind)
    | _ => none
  | _ => none

/-- How long the escape sequence at the front of a text is, if there is one. -/
def sequenceLength? : List Char → Option Nat
  | [] => none
  | c :: s =>
    if c = escapeChar then (splitSequence? s).map fun parts => parts.1.length + 3 else none

/-- A text without its escape sequences. -/
def stripSequences (s : List Char) : List Char :=
  replacePieces sequenceLength? [] s

/-! ## Reading -/

/-- The run that the text `s` in the colour `color?` is when an order ends it,
and the colour of what follows. -/
def endRun? (s : List Char) : Option Components → Order → Option (Run × Option Components)
  | none, .setColor color => some (.plain s, some color)
  | some color, .reset => some (.colored color s, none)
  | _, _ => none

/-- The runs of the text `s` in the colour `color?`, if there is one, and of the
pieces that follow, each behind an escape character. -/
def readRuns : Option Components → List Char → List (List Char) → Option (List Run)
  | none, s, [] => some [.plain s]
  | some _, _, [] => none
  | color?, s, piece :: pieces => do
    let (parameters, behind) ← splitSequence? piece
    let order ← order? parameters
    let (run, next?) ← endRun? s color? order
    (readRuns next? behind pieces).map (run :: ·)

/-- The runs of a text that begins in the colour `color?`. -/
def decodeFrom (color? : Option Components) (s : List Char) : Option (List Run) :=
  match s.splitOn escapeChar with
  | [] => none
  | first :: pieces => readRuns color? first pieces

/-- The runs of a text. -/
def decode (s : List Char) : Option (List Run) :=
  decodeFrom none s

end Ansi
end JsonTint
