/-!
# Byte offsets in a text

A text is a list of characters.  Offsets into it count the bytes of its UTF-8
form, so the offset of a character is the byte length of everything before it.
Cutting at an offset that falls inside a character cuts in front of that
character.
-/

namespace JsonTint
namespace Text

/-- The number of bytes a text takes in UTF-8. -/
def byteLength : List Char → Nat
  | [] => 0
  | c :: s => c.utf8Size + byteLength s

/-- The bytes of a text in UTF-8. -/
def toBytes (s : List Char) : List UInt8 :=
  s.flatMap String.utf8EncodeChar

/-- The characters that lie wholly within the first `n` bytes. -/
def takeBytes : Nat → List Char → List Char
  | _, [] => []
  | n, c :: s => if c.utf8Size ≤ n then c :: takeBytes (n - c.utf8Size) s else []

/-- What `takeBytes n` leaves. -/
def dropBytes : Nat → List Char → List Char
  | _, [] => []
  | n, c :: s => if c.utf8Size ≤ n then dropBytes (n - c.utf8Size) s else c :: s

/-- The characters between two byte offsets. -/
def slice (s : List Char) (start stop : Nat) : List Char :=
  takeBytes (stop - start) (dropBytes start s)

/-! ## Laws -/

@[simp]
theorem byteLength_nil : byteLength [] = 0 :=
  rfl

@[simp]
theorem byteLength_cons (c : Char) (s : List Char) :
    byteLength (c :: s) = c.utf8Size + byteLength s :=
  rfl

/-- Pieces one after the other take the bytes of both. -/
@[simp]
theorem byteLength_append (s t : List Char) :
    byteLength (s ++ t) = byteLength s + byteLength t := by
  induction s with
  | nil => simp
  | cons c s ih => simp [ih, Nat.add_assoc]

/-- The order of the characters does not matter to the number of bytes. -/
theorem byteLength_reverse (s : List Char) : byteLength s.reverse = byteLength s := by
  induction s with
  | nil => rfl
  | cons c s ih => simp [ih, Nat.add_comm]

/-- A character takes at least one byte. -/
theorem length_le_byteLength (s : List Char) : s.length ≤ byteLength s := by
  induction s with
  | nil => simp
  | cons c s ih =>
    have := c.utf8Size_pos
    simp only [byteLength_cons, List.length_cons]
    omega

/-- A text has as many bytes as it takes. -/
@[simp]
theorem length_toBytes (s : List Char) : (toBytes s).length = byteLength s := by
  induction s with
  | nil => rfl
  | cons c s ih =>
    have hs : toBytes (c :: s) = String.utf8EncodeChar c ++ toBytes s := rfl
    rw [hs, List.length_append, ih, String.length_utf8EncodeChar, byteLength_cons]

/-- Pieces one after the other have their bytes one after the other. -/
theorem toBytes_flatten (pieces : List (List Char)) :
    toBytes pieces.flatten = pieces.flatMap toBytes := by
  rw [toBytes, ← List.flatMap_id, List.flatMap_assoc]
  rfl

/-- Cutting at any offset loses nothing. -/
@[simp]
theorem takeBytes_append_dropBytes (n : Nat) (s : List Char) :
    takeBytes n s ++ dropBytes n s = s := by
  induction s generalizing n with
  | nil => rfl
  | cons c s ih =>
    by_cases h : c.utf8Size ≤ n <;> simp [takeBytes, dropBytes, h, ih]

@[simp]
theorem takeBytes_zero (s : List Char) : takeBytes 0 s = [] := by
  cases s with
  | nil => rfl
  | cons c s =>
    have := c.utf8Size_pos
    simp only [takeBytes]
    rw [if_neg (by omega)]

@[simp]
theorem dropBytes_zero (s : List Char) : dropBytes 0 s = s := by
  have := takeBytes_append_dropBytes 0 s
  simpa using this

/-- Cutting at the end of `s` gives back `s`. -/
@[simp]
theorem takeBytes_append (s t : List Char) : takeBytes (byteLength s) (s ++ t) = s := by
  induction s with
  | nil => simp
  | cons c s ih =>
    simp only [List.cons_append, takeBytes, byteLength_cons]
    rw [if_pos (by omega), Nat.add_sub_cancel_left, ih]

/-- Cutting at the end of `s` leaves what follows it. -/
@[simp]
theorem dropBytes_append (s t : List Char) : dropBytes (byteLength s) (s ++ t) = t := by
  have h := takeBytes_append_dropBytes (byteLength s) (s ++ t)
  rw [takeBytes_append] at h
  exact List.append_cancel_left h

/-- The piece between the offsets of two boundaries is what stands between them. -/
theorem slice_append (s m t : List Char) :
    slice (s ++ (m ++ t)) (byteLength s) (byteLength s + byteLength m) = m := by
  rw [slice, dropBytes_append, Nat.add_sub_cancel_left, takeBytes_append]

end Text
end JsonTint
