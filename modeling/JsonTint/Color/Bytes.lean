import JsonTint.Color
import JsonTint.Text.Boundary

/-!
# Reading a colour byte by byte

The digits of a colour can be taken out of a text by their byte offsets and
multiplied out in bytes.  Each of these steps can fail: a text cannot be cut
inside a character, and a number may not fit into a byte.
-/

namespace JsonTint
namespace Color

/-- The number that some hexadecimal digits spell, if it fits into a byte. -/
def byteOfDigits? (digits : List Char) : Option UInt8 :=
  let n := natOfDigits 16 digits
  if digits ≠ [] ∧ digits.all isHexDigit ∧ n < 256 then some (UInt8.ofNat n) else none

/-- The product of two bytes, if it fits into one. -/
def timesByte? (a b : UInt8) : Option UInt8 :=
  if a.toNat * b.toNat < 256 then some (a * b) else none

/-- The component given by the single digit at an offset. -/
def digitAt? (digits : List Char) (i : Nat) : Option UInt8 := do
  let piece ← Text.slice? digits i (i + 1)
  let d ← byteOfDigits? piece
  timesByte? d 17

/-- The component given by the two digits at an offset. -/
def pairAt? (digits : List Char) (i : Nat) : Option UInt8 := do
  let piece ← Text.slice? digits i (i + 2)
  byteOfDigits? piece

/-- The colour that a row of characters spells, if it spells one.  The row has to
be three or six bytes long.  There is no answer at all if a step fails. -/
def hexByBytes? (digits : List Char) : Option (Option Color) :=
  if digits.all isHexDigit then
    if Text.byteLength digits = 3 then do
      let r ← digitAt? digits 0
      let g ← digitAt? digits 1
      let b ← digitAt? digits 2
      return some (rgb r g b)
    else if Text.byteLength digits = 6 then do
      let r ← pairAt? digits 0
      let g ← pairAt? digits 2
      let b ← pairAt? digits 4
      return some (rgb r g b)
    else some none
  else some none

/-- The colour that a text in lower case gives, if it gives one. -/
def ofLower? (t : List Char) : Option Color :=
  match ofName? t with
  | some color => some color
  | none =>
    match t with
    | '#' :: digits => ofHex? digits
    | _ => none

/-- The same colour, read byte by byte.  There is no answer at all if a step
fails. -/
def lowerByBytes? (t : List Char) : Option (Option Color) :=
  match ofName? t with
  | some color => some (some color)
  | none =>
    match t with
    | '#' :: digits => hexByBytes? digits
    | _ => some none

end Color
end JsonTint
