import JsonTint.Text.Utf8

/-!
# Offsets at which a text can be cut

An offset is a boundary of a text if no character lies across it.  Cutting a
text anywhere else, or from a later offset to an earlier one, is an error.
-/

namespace JsonTint
namespace Text

/-- Whether an offset lies between two characters of a text or at one of its two
ends. -/
def isBoundary : List Char → Nat → Bool
  | _, 0 => true
  | [], _ + 1 => false
  | c :: s, n + 1 => c.utf8Size ≤ n + 1 && isBoundary s (n + 1 - c.utf8Size)

/-- The characters between two byte offsets, if the text can be cut there. -/
def slice? (s : List Char) (start stop : Nat) : Option (List Char) :=
  if start ≤ stop ∧ isBoundary s start ∧ isBoundary s stop then some (slice s start stop)
  else none

/-! ## Laws -/

/-- The end of a beginning of a text is a boundary. -/
theorem isBoundary_append (u v : List Char) : isBoundary (u ++ v) (byteLength u) = true := by
  induction u with
  | nil => cases v <;> rfl
  | cons c u ih =>
      have hpos := c.utf8Size_pos
      rw [byteLength_cons]
      rcases Nat.exists_eq_succ_of_ne_zero (by omega : c.utf8Size + byteLength u ≠ 0) with ⟨n, hn⟩
      have hrest : n + 1 - c.utf8Size = byteLength u := by omega
      have hle : c.utf8Size ≤ n + 1 := by omega
      rw [hn, List.cons_append, isBoundary, hrest, ih, Bool.and_true]
      exact decide_eq_true hle

/-- What stands between two other pieces of a text can be cut out. -/
theorem slice?_append (u w v : List Char) :
    slice? (u ++ (w ++ v)) (byteLength u) (byteLength u + byteLength w) = some w := by
  have hstart := isBoundary_append u (w ++ v)
  have hstop := isBoundary_append (u ++ w) v
  rw [List.append_assoc, byteLength_append] at hstop
  rw [slice?, if_pos ⟨Nat.le_add_right _ _, hstart, hstop⟩, slice_append]

end Text
end JsonTint
