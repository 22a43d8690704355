import JsonTint.Text.Reader
import JsonTint.Toml.Value

/-!
# Numbers, dates and times in TOML

An underscore may stand between two digits of a number.  Integers fit into 64
bits; a decimal number has no leading zeros.
-/

namespace JsonTint
namespace Toml

open Reader

/-! ## Numbers -/

/-- Digits, with single underscores between them. -/
def digitRow (ok : Char → Bool) : Reader (List Char) := do
  let first ← satisfy ok
  let others ← many (satisfy ok <|> (do char '_'; satisfy ok))
  return first :: others

/-- Whether a minus was written; a plus may stand there too. -/
def sign : Reader Bool :=
  (do char '-'; return true) <|> (do char '+'; return false) <|> pure false

/-- The digits of a decimal number without leading zeros. -/
def wholeDigits : Reader (List Char) := do
  match ← peek? with
  | some '0' => char '0'; return ['0']
  | _ => digitRow Char.isDigit

/-- An integer that 64 bits can hold. -/
def inRange (i : Int) : Reader Value := do
  guard (-(Int.pow 2 63) ≤ i && i < Int.pow 2 63)
  return .integer i

/-- An integer in base 16, 8 or 2, behind its mark. -/
def basedInteger (mark : List Char) (base : Nat) (ok : Char → Bool) : Reader Value := do
  text mark
  let digits ← digitRow ok
  inRange (natOfDigits base digits)

/-- An integer. -/
def integer : Reader Value := do
  match ← remaining with
  | '0' :: 'x' :: _ => basedInteger ['0', 'x'] 16 isHexDigit
  | '0' :: 'o' :: _ => basedInteger ['0', 'o'] 8 fun c => '0' ≤ c && c ≤ '7'
  | '0' :: 'b' :: _ => basedInteger ['0', 'b'] 2 fun c => c == '0' || c == '1'
  | _ =>
    let negative ← sign
    let digits ← wholeDigits
    let n : Int := natOfDigits 10 digits
    inRange (if negative then -n else n)

/-- The exponent part of a number. -/
def exponentPart : Reader Int := do
  let _ ← satisfy fun c => c == 'e' || c == 'E'
  let negative ← sign
  let n : Int := natOfDigits 10 (← digitRow Char.isDigit)
  return if negative then -n else n

/-- A fraction, an exponent, or a fraction and an exponent. -/
def fractionAndExponent : Reader (List Char × Int) :=
  (do
    char '.'
    let digits ← digitRow Char.isDigit
    let e ← Reader.option exponentPart
    return (digits, e.getD 0)) <|>
  (do
    let e ← exponentPart
    return ([], e))

/-- A number with a fraction or an exponent; it may not be too great for a
value, but it may be too far below zero for one. -/
def decimalFloat : Reader Value := do
  let negative ← sign
  let whole ← wholeDigits
  let (fraction, e) ← fractionAndExponent
  let x := Binary64.ofDecimal negative (natOfDigits 10 (whole ++ fraction)) (e - fraction.length)
  guard (x != .infinite false)
  return .float x

/-- An infinity, or the value that is no number. -/
def specialFloat : Reader Value := do
  let negative ← sign
  (do text "inf".toList; return .float (.infinite negative)) <|>
    (do text "nan".toList; return .float .notANumber)

/-- A truth value. -/
def boolean : Reader Value :=
  (do text "true".toList; return .boolean true) <|>
    (do text "false".toList; return .boolean false)

/-! ## Dates and times -/

/-- A number of `n` digits within bounds. -/
def field (n low high : Nat) : Reader Nat := do
  let value := natOfDigits 10 (← exactly n Char.isDigit)
  guard (low ≤ value && value ≤ high)
  return value

/-- The number of days in a month. -/
def daysInMonth (year month : Nat) : Nat :=
  if month == 2 then
    if year % 4 == 0 && (year % 100 != 0 || year % 400 == 0) then 29 else 28
  else if month == 4 || month == 6 || month == 9 || month == 11 then 30
  else 31

/-- A date that exists. -/
def date : Reader Unit := do
  let year ← field 4 0 9999
  char '-'
  let month ← field 2 1 12
  char '-'
  let _ ← field 2 1 (daysInMonth year month)

/-- A time of day, with a fraction of a second if one is given. -/
def time : Reader Unit := do
  let _ ← field 2 0 23
  char ':'
  let _ ← field 2 0 59
  char ':'
  let _ ← field 2 0 60
  let _ ← Reader.option (do char '.'; takeWhile1 Char.isDigit)

/-- The offset of a time from universal time. -/
def timeOffset : Reader Unit :=
  (do let _ ← satisfy fun c => c == 'Z' || c == 'z') <|>
  (do
    let _ ← satisfy fun c => c == '+' || c == '-'
    let _ ← field 2 0 23
    char ':'
    let _ ← field 2 0 59)

/-- A date and the time that may follow it, or a time. -/
def dateAndTime : Reader Unit :=
  (do
    date
    let _ ← Reader.option (do
      let _ ← satisfy fun c => c == 'T' || c == 't' || c == ' '
      time
      Reader.option timeOffset)) <|>
  time

/-- A date or time, kept as written. -/
def dateTime : Reader Value := fun s =>
  match dateAndTime s with
  | none => none
  | some (_, rest) =>
    some (.dateTime (String.ofList (s.take (s.length - rest.length))), rest)

/-- A value that is not quoted and holds no other values. -/
def unquoted : Reader Value :=
  dateTime <|> decimalFloat <|> specialFloat <|> integer <|> boolean

end Toml
end JsonTint
