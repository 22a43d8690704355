import JsonTint.Text.Reader

/-!
# Quoted texts in TOML

There are four forms: basic strings, in which a backslash begins an escape, and
literal strings, in which it does not, each on a single line or, between
tripled quotes, over several lines.  In the latter a line break right behind
the opening quotes is dropped and every other one is read as a line feed.
-/

namespace JsonTint
namespace Toml

open Reader

/-- Whether a character may stand for itself in a comment: all but control
characters other than the tab. -/
def isPlainChar (c : Char) : Bool :=
  c == '\t' || (' ' ≤ c && c != '\x7f')

/-- Whether a character may stand for itself in a basic string. -/
def isBasicChar (c : Char) : Bool :=
  isPlainChar c && c != '"' && c != '\\'

/-- Whether a character may stand for itself in a literal string. -/
def isLiteralChar (c : Char) : Bool :=
  isPlainChar c && c != '\''

/-- A space or a tab. -/
def isSpace (c : Char) : Bool :=
  c == ' ' || c == '\t'

/-- Spaces and tabs, if there are any. -/
def spaces : Reader Unit := do
  let _ ← takeWhile isSpace

/-- A line feed, or a carriage return and a line feed. -/
def newline : Reader Unit :=
  char '\n' <|> (do char '\r'; char '\n')

/-! ## Escapes -/

/-- The character given by `n` hexadecimal digits. -/
def codePoint (n : Nat) : Reader Char := do
  let digits ← exactly n isHexDigit
  match scalar? (natOfDigits 16 digits) with
  | some c => return c
  | none => failure

/-- The rest of an escape, behind its backslash. -/
def escape : Reader Char := do
  match ← next with
  | 'b' => return '\x08'
  | 't' => return '\t'
  | 'n' => return '\n'
  | 'f' => return '\x0c'
  | 'r' => return '\r'
  | '"' => return '"'
  | '\\' => return '\\'
  | 'u' => codePoint 4
  | 'U' => codePoint 8
  | _ => failure

/-- An escaped character. -/
def escaped : Reader (List Char) := do
  char '\\'
  return [← escape]

/-- A backslash at the end of a line, with the line break and all spaces and
line breaks that follow. -/
def lineContinuation : Reader (List Char) := do
  char '\\'
  spaces
  newline
  let _ ← many (newline <|> (do let _ ← satisfy isSpace))
  return []

/-! ## Single lines -/

/-- A basic string on one line. -/
def basicString : Reader (List Char) := do
  char '"'
  let pieces ← many (takeWhile1 isBasicChar <|> escaped)
  char '"'
  return pieces.flatten

/-- A literal string on one line. -/
def literalString : Reader (List Char) := do
  char '\''
  let s ← takeWhile isLiteralChar
  char '\''
  return s

/-! ## Several lines -/

/-- One or two quotes that do not close the string. -/
def innerQuotes (quote : Char) : Reader (List Char) := do
  let quotes ← takeWhile1 (· == quote)
  guard (quotes.length < 3)
  return quotes

/-- Three closing quotes, and up to two quotes in front of them that belong to
the string. -/
def closingQuotes (quote : Char) : Reader (List Char) := fun s =>
  let run := min (s.takeWhile (· == quote)).length 5
  if run < 3 then none
  else some (List.replicate (run - 3) quote, s.drop run)

/-- A string over several lines whose other pieces `piece` reads. -/
def multilineString (quote : Char) (piece : Reader (List Char)) : Reader (List Char) := do
  text [quote, quote, quote]
  let _ ← Reader.option newline
  let lineBreak : Reader (List Char) := do newline; return ['\n']
  let pieces ← many (piece <|> lineBreak <|> innerQuotes quote)
  let last ← closingQuotes quote
  return pieces.flatten ++ last

/-- A quoted text in any of the four forms. -/
def quoted : Reader (List Char) := do
  match ← remaining with
  | '"' :: '"' :: '"' :: _ =>
    multilineString '"' (takeWhile1 isBasicChar <|> lineContinuation <|> escaped)
  | '"' :: _ => basicString
  | '\'' :: '\'' :: '\'' :: _ => multilineString '\'' (takeWhile1 isLiteralChar)
  | _ => literalString

end Toml
end JsonTint
