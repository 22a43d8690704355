import JsonTint.Pattern.Basic
import JsonTint.Text.Reader

/-!
# Written patterns

Patterns are written in the usual regular expression notation: characters that
stand for themselves, `.`, `^`, `$`, bracketed classes, backslash escapes,
groups `(?:…)`, the ASCII word boundary `(?-u:\b)`, `|`, and the repetitions
`*`, `+`, `?` and `{n}`.  Any other use of the notation is refused, and so is a
repetition without a bound whose body can match nothing.  How large a pattern
grows is not looked at.
-/

namespace JsonTint
namespace Pattern

open Reader

/-- Characters that stand for themselves only behind a backslash. -/
def isOperator (c : Char) : Bool :=
  "\\.+*?()|[^$\x7b".toList.contains c

/-- The character that a letter behind a backslash stands for. -/
def controlEscape? : Char → Option Char
  | 'n' => some '\n'
  | 't' => some '\t'
  | 'r' => some '\r'
  | 'f' => some '\x0c'
  | 'v' => some '\x0b'
  | 'a' => some '\x07'
  | _ => none

/-- ASCII punctuation a backslash may stand in front of. -/
def isEscapable (c : Char) : Bool :=
  "\\.+*?()|[]\x7b\x7d^$#&-~!\"%,/:;=@\x27\x60".toList.contains c

/-- What stands behind a backslash: a class or a character. -/
inductive Escape where
  | cls (c : CharClass)
  | char (c : Char)

/-- The rest of an escape, behind its backslash. -/
def readEscape : Reader Escape := do
  let c ← next
  if c == 's' then
    return .cls ⟨Text.whiteSpaceRanges, false⟩
  else if c == 'x' then
    char '\x7b'
    let digits ← takeWhile1 isHexDigit
    char '\x7d'
    match scalar? (natOfDigits 16 digits) with
    | some x => return .char x
    | none => failure
  else if isEscapable c then
    return .char c
  else
    match controlEscape? c with
    | some x => return .char x
    | none => failure

/-! ## Bracketed classes -/

/-- The ranges of what an escape stands for. -/
def Escape.ranges : Escape → List (Char × Char)
  | cls c => c.ranges
  | char c => [(c, c)]

/-- One end of a range in brackets, or a whole class. -/
def readClassAtom : Reader Escape := do
  let c ← satisfy fun c => c != '[' && c != '&' && c != '~'
  if c == '\\' then readEscape else return .char c

/-- One item in brackets: a class, a range with its ends in order, or a
character.  No item begins with two minus signs, which stand for the difference
of classes. -/
def readClassItem : Reader (List (Char × Char)) := do
  let ahead ← remaining
  guard (ahead.head? != some ']' && !"--".toList.isPrefixOf ahead)
  let first ← readClassAtom
  match ← remaining with
  | '-' :: x :: _ =>
    if x == ']' || x == '-' then
      return first.ranges
    else
      char '-'
      match first, ← readClassAtom with
      | .char lo, .char hi =>
        guard (lo ≤ hi)
        return [(lo, hi)]
      | _, _ => failure
  | _ => return first.ranges

/-- The characters that stand for themselves because brackets begin with them:
one closing bracket, or minus signs. -/
def readClassFront : Reader (List Char) := do
  match ← peek? with
  | some ']' => char ']'; return [']']
  | _ => takeWhile (· == '-')

/-- The rest of a bracketed class, behind its opening bracket. -/
def readClass : Reader CharClass := do
  let negated := (← Reader.option (char '^')).isSome
  let front ← readClassFront
  let items ← many readClassItem
  char ']'
  return ⟨front.map (fun c => (c, c)) ++ items.flatten, negated⟩

/-! ## Patterns -/

/-- The repetition written behind a pattern, if there is one. -/
def readRepetition (p : Pattern) : Reader Pattern := do
  match ← peek? with
  | some '*' => char '*'; return star p
  | some '+' => char '+'; return plus p
  | some '?' => char '?'; return optional p
  | some '\x7b' =>
    char '\x7b'
    let digits ← takeWhile1 Char.isDigit
    char '\x7d'
    return times p (natOfDigits 10 digits)
  | _ => return p

mutual

/-- A choice between branches; `fuel` bounds how deep the groups in it nest. -/
def readChoice : Nat → Reader Pattern
  | 0 => failure
  | fuel + 1 => do
    let first ← readBranch fuel
    let others ← many (do char '|'; readBranch fuel)
    return choice (first :: others)

/-- One branch: repeated atoms in a row. -/
def readBranch : Nat → Reader Pattern
  | 0 => failure
  | fuel + 1 => do
    let parts ← many (do
      let p ← readAtom fuel
      readRepetition p)
    return sequence parts

/-- A pattern that a repetition can apply to. -/
def readAtom : Nat → Reader Pattern
  | 0 => failure
  | fuel + 1 => do
    match ← remaining with
    | '(' :: '?' :: '-' :: 'u' :: ':' :: '\\' :: 'b' :: ')' :: _ =>
      text "(?-u:\\b)".toList
      return assert .wordBoundary
    | '(' :: _ =>
      text "(?:".toList
      let p ← readChoice fuel
      char ')'
      return p
    | '[' :: _ => char '['; return chars (← readClass)
    | '.' :: _ => char '.'; return chars ⟨[('\n', '\n')], true⟩
    | '^' :: _ => char '^'; return assert .textStart
    | '$' :: _ => char '$'; return assert .textEnd
    | '\\' :: _ =>
      char '\\'
      match ← readEscape with
      | .cls cls => return chars cls
      | .char c => return just c
    | _ =>
      let c ← satisfy fun c => !isOperator c
      return just c

end

/-- The pattern that a text writes, if it writes one that advances. -/
def parse? (s : List Char) : Option {p : Pattern // p.advances = true} := do
  let p ← (readChoice (3 * s.length + 3)).readAll? s
  if h : p.advances = true then some ⟨p, h⟩ else none

/-- Minus signs in front stand for themselves, and one before the end does too. -/
example :
    parse? "[--a-]".toList =
      some ⟨chars ⟨[('-', '-'), ('-', '-'), ('a', 'a'), ('-', '-')], false⟩, by decide⟩ := by
  decide +kernel

/-- A choice that may be empty is not repeated. -/
example : parse? "(?:|a)*".toList = none := by
  decide +kernel

end Pattern
end JsonTint
