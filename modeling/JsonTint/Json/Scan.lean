import JsonTint.Tokenizer.Basic

/-!
# Scanning JSON by its rules

The shapes of JSON tokens, each said directly of the characters that lie ahead,
and a scan that tries them at one position after the other: a quoted text, a
keyword, a number.
-/

namespace JsonTint
namespace Json

/-! ## Quoted texts -/

/-- The number of characters up to and including the closing quote of a quoted
text, whose opening quote has been passed. -/
def quotedBody? : List Char → Option Nat
  | [] => none
  | '"' :: _ => some 1
  | '\\' :: 'u' :: a :: b :: c :: d :: rest =>
    if [a, b, c, d].all isHexDigit then (quotedBody? rest).map (6 + ·) else none
  | '\\' :: x :: rest => if x = 'u' then none else (quotedBody? rest).map (2 + ·)
  | x :: rest => if x = '\\' then none else (quotedBody? rest).map (1 + ·)

/-- Blanks and byte order marks. -/
def isGap (c : Char) : Bool :=
  Text.isBlank c || c == '\ufeff'

/-- The number of characters up to and including a colon that only a gap
separates from here. -/
def keyTail? (s : List Char) : Option Nat :=
  let gap := s.takeWhile isGap
  if (s.drop gap.length).head? = some ':' then some (gap.length + 1) else none

/-- The length of the quoted text at the front, and whether it is a key. -/
def quoted? : List Char → Option (Nat × TokenClass)
  | '"' :: s =>
    match quotedBody? s with
    | none => none
    | some n =>
      match keyTail? (s.drop n) with
      | some m => some (1 + n + m, .key)
      | none => some (1 + n, .string)
  | _ => none

/-! ## Keywords -/

/-- Whether a word stands at the front, between characters that are not word
characters. -/
def isWordAhead (word : String) (previous : Option Char) (s : List Char) : Bool :=
  word.toList.isPrefixOf s && !previous.any Assertion.isWordChar &&
    !(s.drop word.length).head?.any Assertion.isWordChar

/-- The length and class of the keyword at the front. -/
def keyword? (previous : Option Char) (s : List Char) : Option (Nat × TokenClass) :=
  if isWordAhead "true" previous s then some (4, .boolean)
  else if isWordAhead "false" previous s then some (5, .boolean)
  else if isWordAhead "null" previous s then some (4, .null)
  else none

/-! ## Numbers -/

/-- The number of digits at the front. -/
def digitCount (s : List Char) : Nat :=
  (s.takeWhile Char.isDigit).length

/-- The length of the fraction at the front, or zero. -/
def fractionLength : List Char → Nat
  | '.' :: s => 1 + digitCount s
  | _ => 0

/-- The length of the exponent at the front, or zero; an exponent has a
digit. -/
def exponentLength : List Char → Nat
  | e :: s =>
    if e = 'e' ∨ e = 'E' then
      let signLength := if s.head? = some '+' ∨ s.head? = some '-' then 1 else 0
      let digits := digitCount (s.drop signLength)
      if digits = 0 then 0 else 1 + signLength + digits
    else 0
  | [] => 0

/-- The length of the number at the front. -/
def number? (s : List Char) : Option (Nat × TokenClass) :=
  let signLength := if s.head? = some '-' then 1 else 0
  let digits := digitCount (s.drop signLength)
  if digits = 0 then none
  else
    let whole := signLength + digits
    let fraction := fractionLength (s.drop whole)
    let exponent := exponentLength (s.drop (whole + fraction))
    some (whole + fraction + exponent, .number)

/-! ## The scan -/

/-- The length and class of the token at the front. -/
def lexeme? (previous : Option Char) (s : List Char) : Option (Nat × TokenClass) :=
  match quoted? s with
  | some found => some found
  | none =>
    match keyword? previous s with
    | some found => some found
    | none => number? s

/-- The tokens of the text ahead, with at most `fuel` steps.  The text begins
at the byte offset `offset`, behind the character `previous`. -/
def scanFrom : Nat → Option Char → Nat → List Char → List Token
  | 0, _, _, _ => []
  | _ + 1, _, _, [] => []
  | fuel + 1, previous, offset, c :: s =>
    match lexeme? previous (c :: s) with
    | some (n, cls) =>
      let lexeme := (c :: s).take n
      let stop := offset + Text.byteLength lexeme
      ⟨offset, stop, cls⟩ :: scanFrom fuel lexeme.getLast? stop ((c :: s).drop n)
    | none => scanFrom fuel (some c) (offset + c.utf8Size) s

/-- The tokens of a JSON text. -/
def scan (s : List Char) : List Token :=
  scanFrom s.length none 0 s

end Json
end JsonTint
