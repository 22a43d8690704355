import JsonTint.Text.Cursor

/-!
# Matchers

Rules leave the work of matching to an engine.  All that they rely on is stated
here: whether and how far a match goes from a position depends on the text and
the position alone, and a match ends at or behind its start.  A search goes
through the positions of a text and takes the first at which there is a match.
-/

namespace JsonTint

/-- An engine set up for one shape: where the preferred match at a position
ends, if the shape matches there. -/
structure Matcher where
  matchAt : Cursor → Option Cursor
  reaches_of_matchAt : ∀ c d, matchAt c = some d → c.Reaches d

namespace Matcher

/-- The leftmost match that starts at or behind a position. -/
def search (m : Matcher) (c : Cursor) : Option (Cursor × Cursor) :=
  c.findSome? fun d => (m.matchAt d).map fun stop => (d, stop)

/-- The byte offsets of the leftmost match in a text that starts at or behind
`start`.  The text in front of `start` still counts as context; from inside a
character the search begins at the next one, and behind the end of the text
there is nothing to find. -/
def findAt (m : Matcher) (s : List Char) (start : Nat) : Option (Nat × Nat) :=
  (Cursor.ofText s).findSome? fun c =>
    if start ≤ c.offset then (m.matchAt c).map fun stop => (c.offset, stop.offset)
    else none

end Matcher
end JsonTint
