import JsonTint.Tokenizer.Stream

/-!
# A text cut at its tokens

Renderers do not work on offsets.  They take a text as a row of segments: the
tokens in order, and what stands before, between and behind them.
-/

namespace JsonTint

open Text

/-- A token of a text or a piece between tokens. -/
inductive Segment where
  | gap (s : List Char)
  | token (cls : TokenClass) (s : List Char)
  deriving DecidableEq, Repr

namespace Segment

/-- The text of a segment. -/
def text : Segment → List Char
  | gap s => s
  | token _ s => s

/-- A segment with another text in the same class. -/
def mapText (f : List Char → List Char) : Segment → Segment
  | gap s => gap (f s)
  | token cls s => token cls (f s)

/-- The text that a row of segments spells. -/
def join (ps : List Segment) : List Char :=
  ps.flatMap text

/-- The tokens of a row of segments that begins at the offset `last`. -/
def tokensFrom : Nat → List Segment → List Token
  | _, [] => []
  | last, gap s :: ps => tokensFrom (last + byteLength s) ps
  | last, token cls s :: ps =>
    ⟨last, last + byteLength s, cls⟩ :: tokensFrom (last + byteLength s) ps

/-- The segments of a text that begins at the offset `last`, with the tokens
found in it. -/
def cutFrom : Nat → List Char → List Token → List Segment
  | _, s, [] => [gap s]
  | last, s, t :: ts =>
    let behind := dropBytes (t.start - last) s
    gap (takeBytes (t.start - last) s) :: token t.cls (takeBytes (t.stop - t.start) behind) ::
      cutFrom t.stop (dropBytes (t.stop - t.start) behind) ts

end Segment

/-- The segments that a tokenizer cuts a text into. -/
def Tokenizer.segments (t : Tokenizer) (s : List Char) : List Segment :=
  Segment.cutFrom 0 s (t.tokens s)

end JsonTint
