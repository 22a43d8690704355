import JsonTint.Proofs.Segment.Merge
import JsonTint.Text.Replace

/-!
# Deleting the marks around tokens

A renderer writes gaps as they are and tokens between two marks.  If all marks
begin with a character that is not in the text, deleting them gives the text
back.
-/

namespace JsonTint
namespace Segment

open Text

/-- Gaps are written as they are, and tokens between two marks that `front?`
finds.  Whatever it finds begins with the character `x`. -/
structure Wraps (x : Char) (front? : List Char → Option Nat) (write : Segment → List Char) :
    Prop where
  begins : PiecesBeginWith x front?
  gap : ∀ s, write (gap s) = s
  token : ∀ cls, ∃ opening closing, IsPiece front? opening ∧ IsPiece front? closing ∧
    ∀ s, write (token cls s) = opening ++ (s ++ closing)

/-- Deleting the marks of a row leaves its text. -/
theorem Wraps.replacePieces_flatMap {x : Char} {front? : List Char → Option Nat}
    {write : Segment → List Char} (h : Wraps x front? write) {ps : List Segment}
    (hps : x ∉ join ps) : replacePieces front? [] (ps.flatMap write) = join ps := by
  induction ps with
  | nil => exact replacePieces_nil _ _
  | cons p ps ih =>
      rw [join_cons, List.mem_append, not_or] at hps
      have hrest := ih hps.2
      have hrun (behind : List Char) : replacePieces front? [] (p.text ++ behind) =
          p.text ++ replacePieces front? [] behind := h.begins.replacePieces_append hps.1 behind
      rw [List.flatMap_cons, join_cons, ← hrest]
      cases p with
      | gap s =>
          rw [h.gap]
          exact hrun _
      | token cls s =>
          rcases h.token cls with ⟨opening, closing, hopening, hclosing, hwrite⟩
          calc
            replacePieces front? [] (write (.token cls s) ++ ps.flatMap write) =
                replacePieces front? [] (s ++ (closing ++ ps.flatMap write)) := by
              rw [hwrite, List.append_assoc, List.append_assoc]
              exact hopening.replacePieces_append _
            _ = s ++ replacePieces front? [] (closing ++ ps.flatMap write) := hrun _
            _ = s ++ replacePieces front? [] (ps.flatMap write) := by
              rw [hclosing.replacePieces_append]
              rfl

end Segment
end JsonTint
