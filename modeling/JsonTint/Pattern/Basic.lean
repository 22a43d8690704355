import JsonTint.Text.Blank
import JsonTint.Text.Cursor

/-!
# Patterns and where they end

A pattern describes pieces of text.  What it matches at a position is the list
of the positions where a match can end, the preferred end first: a choice
prefers its left branch and a repetition prefers one more round.

Engines do not agree on a repetition whose body can match nothing: what comes of
a round that stays where it is depends on how they are built.  In a pattern that
advances there is no such repetition, and patterns are matched only if they
advance.
-/

namespace JsonTint

/-- A set of characters: the listed ranges, or everything but them. -/
structure CharClass where
  ranges : List (Char × Char)
  negated : Bool := false
  deriving DecidableEq, Repr

namespace CharClass

/-- The class of one character. -/
def single (c : Char) : CharClass where
  ranges := [(c, c)]

/-- The ASCII digits. -/
def digit : CharClass where
  ranges := [('0', '9')]

/-- The ASCII hexadecimal digits. -/
def hexDigit : CharClass where
  ranges := [('0', '9'), ('a', 'f'), ('A', 'F')]

/-- Whether a class holds a character. -/
def contains (cls : CharClass) (c : Char) : Bool :=
  Text.inRanges cls.ranges c != cls.negated

end CharClass

/-- A condition on a position that consumes nothing. -/
inductive Assertion where
  | wordBoundary
  | textStart
  | textEnd
  deriving DecidableEq, Repr

namespace Assertion

/-- ASCII letters, digits and the underscore. -/
def isWordChar (c : Char) : Bool :=
  c.isAlphanum || c == '_'

/-- Whether the neighbour on one side is a word character. -/
def touchesWord (side : List Char) : Bool :=
  side.head?.any isWordChar

/-- Whether the condition is met at a position. -/
def holds : Assertion → Cursor → Bool
  | wordBoundary, c => touchesWord c.before != touchesWord c.after
  | textStart, c => c.before.isEmpty
  | textEnd, c => c.after.isEmpty

end Assertion

/-- A pattern over characters. -/
inductive Pattern where
  | empty
  | chars (cls : CharClass)
  | assert (condition : Assertion)
  | seq (first second : Pattern)
  | alt (preferred other : Pattern)
  | star (body : Pattern)
  deriving DecidableEq, Repr

namespace Pattern

/-! ## Derived forms -/

/-- One given character. -/
def just (c : Char) : Pattern :=
  chars (.single c)

/-- One or more rounds, as many as possible. -/
def plus (p : Pattern) : Pattern :=
  seq p (star p)

/-- The pattern once, or else nothing. -/
def optional (p : Pattern) : Pattern :=
  alt p empty

/-- The pattern a fixed number of times. -/
def times (p : Pattern) : Nat → Pattern
  | 0 => empty
  | 1 => p
  | n + 2 => seq p (times p (n + 1))

/-- Patterns one after the other. -/
def sequence : List Pattern → Pattern
  | [] => empty
  | [p] => p
  | p :: q :: rest => seq p (sequence (q :: rest))

/-- Patterns of which an earlier one is preferred. -/
def choice : List Pattern → Pattern
  | [] => empty
  | [p] => p
  | p :: q :: rest => alt p (choice (q :: rest))

/-- A given text. -/
def literal (s : List Char) : Pattern :=
  sequence (s.map just)

/-! ## Patterns that advance -/

/-- Whether a match of a pattern may be empty, as far as its form tells. -/
def mayBeEmpty : Pattern → Bool
  | empty => true
  | chars _ => false
  | assert _ => true
  | seq p q => p.mayBeEmpty && q.mayBeEmpty
  | alt p q => p.mayBeEmpty || q.mayBeEmpty
  | star _ => true

/-- Whether every round of every repetition takes at least one character. -/
def advances : Pattern → Bool
  | empty => true
  | chars _ => true
  | assert _ => true
  | seq p q => p.advances && q.advances
  | alt p q => p.advances && q.advances
  | star p => !p.mayBeEmpty && p.advances

/-! ## Ends of a match -/

/-- Where at most `fuel` rounds of `round` can end, more rounds first. -/
def repeatEnds (round : Cursor → List Cursor) : Nat → Cursor → List Cursor
  | 0, c => [c]
  | fuel + 1, c => (round c).flatMap (repeatEnds round fuel) ++ [c]

/-- The ends of the matches of a pattern at a position, the preferred end
first.  There are no more rounds that take a character than characters left. -/
def ends : Pattern → Cursor → List Cursor
  | empty, c => [c]
  | chars cls, c =>
    match c.next? with
    | none => []
    | some (x, d) => if cls.contains x then [d] else []
  | assert condition, c => if condition.holds c then [c] else []
  | seq p q, c => (p.ends c).flatMap q.ends
  | alt p q, c => p.ends c ++ q.ends c
  | star p, c => repeatEnds p.ends c.remaining c

end Pattern
end JsonTint
