import JsonTint.Ansi
import JsonTint.Error

/-!
# Writing to a device of limited size

A device takes a number of bytes in all.  A piece that does not fit is written
as far as it does, and then writing stops with a fault.
-/

namespace JsonTint

/-- A device: how many bytes it takes in all, and those it has got. -/
structure Sink where
  capacity : Nat
  received : List UInt8 := []
  deriving DecidableEq, Repr

namespace Sink

/-- Writes a piece, as far as it fits. -/
def write (s : Sink) (bytes : List UInt8) : Except IoFault Unit × Sink :=
  let room := s.capacity - s.received.length
  let after := { s with received := s.received ++ bytes.take room }
  if bytes.length ≤ room then (.ok (), after) else (.error .deviceFull, after)

/-- Writes pieces one after the other, up to the first fault. -/
def writeAll : List (List UInt8) → Sink → Except IoFault Unit × Sink
  | [], s => (.ok (), s)
  | bytes :: rest, s =>
    match s.write bytes with
    | (.ok (), s) => writeAll rest s
    | (.error fault, s) => (.error fault, s)

/-- The number of bytes that a device still takes. -/
def room (s : Sink) : Nat :=
  s.capacity - s.received.length

/-! ## Laws -/

/-- A device gets as much of a piece as it has room for, and that is a fault if it
is not all of it. -/
theorem write_eq (s : Sink) (bytes : List UInt8) :
    s.write bytes =
      (if bytes.length ≤ s.room then .ok () else .error .deviceFull,
        { s with received := s.received ++ bytes.take s.room }) := by
  rw [write, room]
  split <;> rfl

theorem write_nil (s : Sink) : s.write [] = (.ok (), s) := by
  simp [write]

/-- A text that fits is written. -/
theorem write_of_le {bytes : List UInt8} {s : Sink} (h : bytes.length ≤ s.room) :
    s.write bytes = (.ok (), { s with received := s.received ++ bytes }) := by
  rw [write_eq, if_pos h, List.take_of_length_le h]

/-- A text that does not fit is written as far as it does. -/
theorem write_of_lt {bytes : List UInt8} {s : Sink} (h : s.room < bytes.length) :
    s.write bytes =
      (.error .deviceFull, { s with received := s.received ++ bytes.take s.room }) := by
  rw [write_eq, if_neg (Nat.not_le.2 h)]

/-- What is left of the room behind bytes that a device has got. -/
theorem room_append (s : Sink) (bytes : List UInt8) :
    room { s with received := s.received ++ bytes } = s.room - bytes.length := by
  simp only [room, List.length_append]
  omega

/-- A text is written like its first part and then, if that fits, its second. -/
theorem write_append (first second : List UInt8) (s : Sink) :
    s.write (first ++ second) =
      match s.write first with
      | (.ok (), s) => s.write second
      | (.error fault, s) => (.error fault, s) := by
  rcases Nat.lt_or_ge s.room first.length with hlt | hle
  · have hover : s.room < (first ++ second).length := by
      rw [List.length_append]
      omega
    rw [write_of_lt hlt, write_of_lt hover, List.take_append_of_le_length (Nat.le_of_lt hlt)]
  · have hfits : first.length + second.length ≤ s.room ↔ second.length ≤ s.room - first.length := by
      omega
    rw [write_of_le hle, write_eq s, List.length_append, List.take_append,
      List.take_of_length_le hle, ← List.append_assoc]
    simp only [write_eq, room_append, hfits]

/-- Pieces are written like the text they make up, however it is cut. -/
theorem writeAll_eq_write (pieces : List (List UInt8)) (s : Sink) :
    writeAll pieces s = s.write pieces.flatten := by
  induction pieces generalizing s with
  | nil => exact s.write_nil.symm
  | cons bytes rest ih =>
      rw [writeAll, List.flatten_cons, write_append]
      rcases s.write bytes with ⟨_ | ⟨⟩, after⟩
      · rfl
      · exact ih after

end Sink

/-- Writes a text, highlighted for a terminal, to a device. -/
def Ansi.write (t : Tokenizer) (theme : Theme) (s : String) (device : Sink) :
    Except IoFault Unit × Sink :=
  device.writeAll ((Ansi.chunks t theme s.toList).map Text.toBytes)

end JsonTint
