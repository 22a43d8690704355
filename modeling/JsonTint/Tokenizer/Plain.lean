import JsonTint.Tokenizer.Basic

/-!
# Scanning without a memory

The plain scan walks through the positions of a text.  At each it takes the
first rule that matches right there: a match that is not empty is a token, and
the walk goes on behind it; otherwise it goes on behind the next character.
-/

namespace JsonTint
namespace Tokenizer

/-- The first rule that matches at a position, and where its match ends. -/
def ruleAt? (rules : List Rule) (c : Cursor) : Option (Rule × Cursor) :=
  rules.findSome? fun r => (r.matcher.matchAt c).map fun stop => (r, stop)

/-- The token that starts at a position, and the position behind it. -/
def tokenAt? (rules : List Rule) (c : Cursor) : Option (Token × Cursor) :=
  match ruleAt? rules c with
  | none => none
  | some (r, d) =>
    if c.offset < d.offset then
      some (⟨c.offset, d.offset, r.classify (c.upTo d)⟩, d)
    else none

/-- The tokens from a position on, with at most `fuel` steps. -/
def plainFrom (rules : List Rule) : Nat → Cursor → List Token
  | 0, _ => []
  | fuel + 1, c =>
    match tokenAt? rules c with
    | some (t, d) => t :: plainFrom rules fuel d
    | none =>
      match c.next? with
      | none => []
      | some (_, d) => plainFrom rules fuel d

/-- The tokens of a text as the plain scan finds them. -/
def plainTokens (rules : List Rule) (s : List Char) : List Token :=
  plainFrom rules (s.length + 1) (Cursor.ofText s)

end Tokenizer
end JsonTint
