import JsonTint.Pattern.Reader
import JsonTint.Pattern.Search
import JsonTint.Text.Quoted
import JsonTint.TokenClass

/-!
# Token rules

A rule finds tokens of one shape with a matcher and says which class each of
them has.  Of two rules that find a token at the same place, the one with the
higher priority decides.  Rules are mostly given by a written pattern.
-/

namespace JsonTint

/-- A token shape: its pattern as it is written, the matcher for it, its
priority, and the class of each match. -/
structure Rule where
  name : String
  source : String
  matcher : Matcher
  priority : Int
  classify : List Char → TokenClass

namespace Rule

/-- The rule with a written pattern, unless the pattern cannot be read. -/
def ofSource? (name source : String) (priority : Int) (classify : List Char → TokenClass) :
    Option Rule :=
  (Pattern.parse? source.toList).map fun pattern =>
    { name, source, matcher := pattern.1.matcher pattern.2, priority, classify }

/-- The leftmost match of a rule in a text that starts at or behind `start`. -/
def findAt (r : Rule) (s : List Char) (start : Nat) : Option (Nat × Nat) :=
  r.matcher.findAt s start

/-- A rule as it is shown in diagnostics. -/
def describe (r : Rule) : String :=
  "PatternRule \x7b name: " ++ Text.quote r.name ++ ", pattern: " ++ Text.quote r.source ++
    ", priority: " ++ toString r.priority ++ " \x7d"

/-! ## Classifiers -/

/-- A quoted text is a key if a colon ends it. -/
def classifyQuoted (s : List Char) : TokenClass :=
  if s.getLast? = some ':' then .key else .string

/-- A keyword is `null` or a truth value. -/
def classifyKeyword (s : List Char) : TokenClass :=
  if s = "null".toList then .null else .boolean

/-- Every match is a number. -/
def classifyNumber (_ : List Char) : TokenClass :=
  .number

end Rule
end JsonTint
