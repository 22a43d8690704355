import JsonTint.Proofs.Ansi.Faithful
import JsonTint.Sink.Calls

/-!
# A device that is too small gets a beginning of the output

Whatever is written to a device of limited size, it gets the output as far as it
fits: nothing is left out, written twice or moved, wherever the end falls.
Neither the cut of the output into pieces nor that of the pieces into calls
makes a difference.

Main results:

- Theorem `Sink.calls_iff`: writing a piece call by call has one result, however
  much each call takes.
- Theorem `write_bounded`: what a device of limited size gets of highlighted
  text, and when that is a fault.
-/

namespace JsonTint

/-! ## Pieces that need several calls -/

namespace Sink

/-- A piece that fits into a device is written by one call. -/
theorem calls_of_le {bytes : List UInt8} {s : Sink} (h : bytes.length ≤ s.room) :
    Calls bytes s (.ok (), { s with received := s.received ++ bytes }) := by
  by_cases hbytes : bytes = []
  · subst hbytes
    rw [List.append_nil]
    exact .done s
  · have hcalls := Calls.taken hbytes h (.done _)
    rwa [List.append_nil] at hcalls

/-- Writing a piece call by call has one result, however much each call takes. -/
theorem calls_iff {bytes : List UInt8} {s : Sink} {result : Except IoFault Unit × Sink} :
    Calls bytes s result ↔ result = s.write bytes := by
  constructor
  · intro h
    induction h with
    | done s => exact s.write_nil.symm
    | @full bytes s hne hroom =>
        have hlt : s.room < bytes.length := by
          rw [hroom]
          exact List.length_pos_iff.2 hne
        rw [write_of_lt hlt, hroom, List.take_zero, List.append_nil]
    | taken hne hroom hrest ih => rw [ih, write_append, write_of_le hroom]
  · rintro rfl
    rcases Nat.lt_or_ge s.room bytes.length with hlt | hle
    · -- The device takes what fits by one call, and nothing by the next.
      rw [write_of_lt hlt]
      have hbehind : bytes.drop s.room ≠ [] := by
        rw [ne_eq, List.drop_eq_nil_iff]
        omega
      by_cases hroom : s.room = 0
      · rw [hroom, List.take_zero, List.append_nil]
        exact .full (List.ne_nil_of_length_pos (by omega)) hroom
      · have hlength : (bytes.take s.room).length = s.room := by
          rw [List.length_take]
          omega
        have hfull : Sink.room { s with received := s.received ++ bytes.take s.room } = 0 := by
          rw [room_append, hlength, Nat.sub_self]
        have hcalls := Calls.taken (List.ne_nil_of_length_pos (by omega)) (Nat.le_of_eq hlength)
          (.full hbehind hfull)
        rwa [List.take_append_drop] at hcalls
    · rw [write_of_le hle]
      exact calls_of_le hle

end Sink

/-! ## Highlighted text -/

namespace Ansi

open Text

/-- The bytes that are written for a text, all pieces in a row. -/
def output (t : Tokenizer) (theme : Theme) (s : String) : List UInt8 :=
  (chunks t theme s.toList).flatMap toBytes

/-- Writing a highlighted text piece by piece is writing its bytes at once. -/
theorem write_eq_write_output (t : Tokenizer) (theme : Theme) (s : String) (device : Sink) :
    write t theme s device = device.write (output t theme s) := by
  rw [write_eq, output, flatMap_toBytes_chunks]

variable (t : Tokenizer) (theme : Theme) (s : String) (cap : Nat)

/-- A device for `cap` bytes gets as many of the output. -/
theorem write_eq_take :
    write t theme s ⟨cap, []⟩ =
      (if (output t theme s).length ≤ cap then .ok () else .error .deviceFull,
        ⟨cap, (output t theme s).take cap⟩) := by
  have hroom : Sink.room ⟨cap, []⟩ = cap := Nat.sub_zero cap
  rw [write_eq_write_output, Sink.write_eq, hroom]
  rfl

/-- A device that takes `cap` bytes gets the first of them that are written for
a text.  The result is a fault exactly if there are more, and then the device is
full.  It is the same for any pieces that make up the output, and however much
of them each call takes. -/
theorem write_bounded :
    (write t theme s ⟨cap, []⟩).2 =
        ⟨cap, (output t theme s).take (min cap (output t theme s).length)⟩ ∧
      ((write t theme s ⟨cap, []⟩).1 = .ok () ↔ (output t theme s).length ≤ cap) ∧
      (cap < (output t theme s).length →
        (write t theme s ⟨cap, []⟩).1 = .error .deviceFull ∧
          (write t theme s ⟨cap, []⟩).2.received.length = cap) ∧
      (Error.io .deviceFull).message = "I/O error: failed to write whole buffer" ∧
      (∀ pieces : List (List UInt8), pieces.flatten = output t theme s →
        Sink.writeAll pieces ⟨cap, []⟩ = write t theme s ⟨cap, []⟩) ∧
      ∀ result, Sink.Calls (output t theme s) ⟨cap, []⟩ result ↔
        result = write t theme s ⟨cap, []⟩ := by
  have hwrite := write_eq_take t theme s cap
  refine ⟨?_, ?_, ?_, rfl, ?_, ?_⟩
  · rw [hwrite, List.take_eq_take_min]
  · by_cases hle : (output t theme s).length ≤ cap <;> simp [hwrite, hle]
  · intro hlt
    have hover : ¬ (output t theme s).length ≤ cap := Nat.not_le.2 hlt
    simp only [hwrite, if_neg hover, List.length_take, true_and]
    omega
  · intro pieces hpieces
    rw [Sink.writeAll_eq_write, hpieces, write_eq_write_output]
  · intro result
    rw [Sink.calls_iff, write_eq_write_output]

end Ansi
end JsonTint
