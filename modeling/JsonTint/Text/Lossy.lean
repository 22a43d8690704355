import JsonTint.Text.Utf8

/-!
# Reading bytes that may not be UTF-8

Bytes are read from left to right.  Where no character stands, the longest piece
that a character could have begun with, or else a single byte, is read as the
replacement character.
-/

namespace JsonTint
namespace Text

/-- The character that stands for bytes that are not UTF-8. -/
def replacement : Char := '\ufffd'

/-- The character that some bytes begin with; none takes more than four. -/
def frontChar? (bytes : List UInt8) : Option Char :=
  (bytes.take 4).toByteArray.utf8DecodeChar? 0

/-- Whether a byte is one of those that follow the first byte of a character. -/
def isContinuation (b : UInt8) : Bool :=
  0x80 ≤ b && b ≤ 0xbf

/-- Whether a character of three bytes can begin with the bytes `a` and `b`. -/
def beginsThree (a b : UInt8) : Bool :=
  (a == 0xe0 && 0xa0 ≤ b && b ≤ 0xbf) ||
    (0xe1 ≤ a && a ≤ 0xef && a != 0xed && isContinuation b) ||
    (a == 0xed && 0x80 ≤ b && b ≤ 0x9f)

/-- Whether a character of four bytes can begin with the bytes `a` and `b`. -/
def beginsFour (a b : UInt8) : Bool :=
  (a == 0xf0 && 0x90 ≤ b && b ≤ 0xbf) ||
    (0xf1 ≤ a && a ≤ 0xf3 && isContinuation b) ||
    (a == 0xf4 && 0x80 ≤ b && b ≤ 0x8f)

/-- How many of some bytes that no character stands at the front of are replaced
at once. -/
def brokenLength : List UInt8 → Nat
  | a :: b :: rest =>
    if beginsThree a b then 2
    else if beginsFour a b then if rest.head?.any isContinuation then 3 else 2
    else 1
  | _ => 1

/-- The text that some bytes are read as. -/
def decodeLossy (bytes : List UInt8) : List Char :=
  match bytes with
  | [] => []
  | b :: rest =>
    match frontChar? (b :: rest) with
    | some c => c :: decodeLossy (rest.drop (c.utf8Size - 1))
    | none => replacement :: decodeLossy (rest.drop (brokenLength (b :: rest) - 1))
termination_by bytes.length
decreasing_by
  all_goals
    rw [List.length_drop, List.length_cons]
    omega

/-! ## Laws -/

/-- The bytes of a character begin with that character. -/
theorem frontChar?_encode_append (c : Char) (bytes : List UInt8) :
    frontChar? (String.utf8EncodeChar c ++ bytes) = some c := by
  have hsize := c.utf8Size_le_four
  have hfront : (String.utf8EncodeChar c).take 4 = String.utf8EncodeChar c :=
    List.take_of_length_le (by rwa [String.length_utf8EncodeChar])
  have hone : (String.utf8EncodeChar c).toByteArray.utf8DecodeChar? 0 = some c := by
    simpa [List.utf8Encode] using List.utf8DecodeChar?_utf8Encode_singleton (c := c)
  rw [frontChar?, List.take_append, hfront, List.toByteArray_append]
  exact ByteArray.utf8DecodeChar?_append_eq_some hone _

/-- A character at the front is read. -/
theorem decodeLossy_encode_append (c : Char) (bytes : List UInt8) :
    decodeLossy (String.utf8EncodeChar c ++ bytes) = c :: decodeLossy bytes := by
  have hlength := String.length_utf8EncodeChar c
  have hfront := frontChar?_encode_append c bytes
  cases hc : String.utf8EncodeChar c with
  | nil =>
      have hpos := c.utf8Size_pos
      rw [hc, List.length_nil] at hlength
      omega
  | cons b rest =>
      rw [hc] at hfront hlength
      have hrest : c.utf8Size - 1 = rest.length := by
        rw [← hlength, List.length_cons, Nat.add_sub_cancel]
      rw [List.cons_append] at hfront ⊢
      rw [decodeLossy, hfront]
      simp only [hrest, List.drop_left]

/-- Bytes that are UTF-8 are read as the text they are the form of. -/
@[simp]
theorem decodeLossy_toBytes (s : List Char) : decodeLossy (toBytes s) = s := by
  induction s with
  | nil => rw [toBytes, List.flatMap_nil, decodeLossy]
  | cons c s ih =>
      rw [toBytes, List.flatMap_cons, decodeLossy_encode_append]
      exact congrArg (c :: ·) ih

end Text
end JsonTint
