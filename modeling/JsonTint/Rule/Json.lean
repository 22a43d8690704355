import JsonTint.Rule.Basic

/-!
# The rules of JSON

Three shapes of token: quoted texts with the colon that may follow, the three
keywords as whole words, and numbers.  Each pattern is given as a value beside
its written form, and reading the written form gives that value.
-/

namespace JsonTint
namespace Rule

open Pattern

/-- What may stand between a key and its colon: blanks and byte order marks. -/
def keyGap : CharClass where
  ranges := Text.whiteSpaceRanges ++ [('\ufeff', '\ufeff')]

/-- One unit of a quoted text: an escape with four hexadecimal digits, another
escaped character, or a plain character. -/
def quotedUnit : Pattern :=
  choice [
    sequence [just '\\', just 'u', times (chars .hexDigit) 4],
    sequence [just '\\', chars ⟨[('u', 'u')], true⟩],
    chars ⟨[('\\', '\\'), ('"', '"')], true⟩]

/-- A quoted text, with the colon that follows it if there is one. -/
def quotedPattern : Pattern :=
  sequence [
    just '"',
    star quotedUnit,
    just '"',
    optional (sequence [star (chars keyGap), just ':'])]

/-- A keyword between ASCII word boundaries. -/
def keywordPattern : Pattern :=
  sequence [
    assert .wordBoundary,
    choice [literal "true".toList, literal "false".toList, literal "null".toList],
    assert .wordBoundary]

/-- A minus that may be missing, digits, and a fraction and an exponent that may
be missing; the fraction needs no digits, the exponent does. -/
def numberPattern : Pattern :=
  sequence [
    optional (just '-'),
    plus (chars .digit),
    optional (sequence [just '.', star (chars .digit)]),
    optional (sequence [
      chars ⟨[('e', 'e'), ('E', 'E')], false⟩,
      optional (chars ⟨[('+', '+'), ('-', '-')], false⟩),
      plus (chars .digit)])]

/-- The written form of `quotedPattern`. -/
def quotedSource : String :=
  "\"(?:\\\\u[0-9a-fA-F]\x7b4\x7d|\\\\[^u]|[^\\\\\"])*\"(?:[\\s\\x\x7bFEFF\x7d]*:)?"

/-- The written form of `keywordPattern`. -/
def keywordSource : String :=
  "(?-u:\\b)(?:true|false|null)(?-u:\\b)"

/-- The written form of `numberPattern`. -/
def numberSource : String :=
  "-?[0-9]+(?:\\.[0-9]*)?(?:[eE][+\\-]?[0-9]+)?"

/-- Quoted texts and keys. -/
def quoted : Rule where
  name := "quoted"
  source := quotedSource
  matcher := quotedPattern.matcher (by decide)
  priority := 100
  classify := classifyQuoted

/-- The keywords `true`, `false` and `null`. -/
def keyword : Rule where
  name := "keyword"
  source := keywordSource
  matcher := keywordPattern.matcher (by decide)
  priority := 90
  classify := classifyKeyword

/-- Numbers. -/
def number : Rule where
  name := "number"
  source := numberSource
  matcher := numberPattern.matcher (by decide)
  priority := 80
  classify := classifyNumber

/-- The rules of JSON, highest priority first. -/
def json : List Rule :=
  [quoted, keyword, number]

/-! ## The written forms -/

/-- The written form of the pattern of quoted texts is read as that pattern. -/
theorem parse?_quotedSource :
    Pattern.parse? quotedSource.toList = some ⟨quotedPattern, by decide⟩ := by
  decide +kernel

/-- The written form of the pattern of keywords is read as that pattern. -/
theorem parse?_keywordSource :
    Pattern.parse? keywordSource.toList = some ⟨keywordPattern, by decide⟩ := by
  decide +kernel

/-- The written form of the pattern of numbers is read as that pattern. -/
theorem parse?_numberSource :
    Pattern.parse? numberSource.toList = some ⟨numberPattern, by decide⟩ := by
  decide +kernel

end Rule
end JsonTint
