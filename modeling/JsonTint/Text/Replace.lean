/-!
# Replacing pieces of a text

A text is walked through from left to right.  Where a piece begins, it is
replaced, and the walk goes on behind it; otherwise it goes on behind the next
character.  What has been put in is not looked at again.
-/

namespace JsonTint
namespace Text

/-- A text with the pieces that `front?` finds replaced by `new`.  Given the
text ahead, `front?` says how many of its characters are a piece. -/
def replacePieces (front? : List Char → Option Nat) (new : List Char) (s : List Char) :
    List Char :=
  match s with
  | [] => []
  | c :: s =>
    match front? (c :: s) with
    | some (n + 1) => new ++ replacePieces front? new (s.drop n)
    | _ => c :: replacePieces front? new s
termination_by s.length
decreasing_by
  · rw [List.length_drop, List.length_cons]
    omega
  · exact Nat.lt_succ_self _

/-- How long the piece `old` is, if the text ahead begins with it. -/
def pieceLength? (old s : List Char) : Option Nat :=
  if old.isPrefixOf s then some old.length else none

/-- A text with every occurrence of `old` replaced by `new`. -/
def replace (old new s : List Char) : List Char :=
  replacePieces (pieceLength? old) new s

/-! ## Laws -/

variable {front? : List Char → Option Nat} {new : List Char}

@[simp]
theorem replacePieces_nil (front? : List Char → Option Nat) (new : List Char) :
    replacePieces front? new [] = [] := by
  rw [replacePieces]

/-- Where no piece begins, a character is left alone. -/
theorem replacePieces_cons_of_eq_none {c : Char} {s : List Char} (h : front? (c :: s) = none) :
    replacePieces front? new (c :: s) = c :: replacePieces front? new s := by
  rw [replacePieces, h]

/-- The text `w` is found as a piece wherever it stands at the front. -/
def IsPiece (front? : List Char → Option Nat) (w : List Char) : Prop :=
  w ≠ [] ∧ ∀ s, front? (w ++ s) = some w.length

/-- A piece at the front is replaced. -/
theorem IsPiece.replacePieces_append {w : List Char} (h : IsPiece front? w) (s : List Char) :
    replacePieces front? new (w ++ s) = new ++ replacePieces front? new s := by
  rcases h with ⟨hw, hfront⟩
  cases w with
  | nil => contradiction
  | cons c w =>
      rw [List.cons_append, replacePieces, ← List.cons_append, hfront, List.length_cons]
      simp only [List.drop_left]

/-- All pieces begin with the character `x`. -/
def PiecesBeginWith (x : Char) (front? : List Char → Option Nat) : Prop :=
  ∀ c s, c ≠ x → front? (c :: s) = none

/-- Pieces that begin with `x` are not found before the first `x`. -/
theorem PiecesBeginWith.replacePieces_append {x : Char} (h : PiecesBeginWith x front?)
    {g : List Char} (hg : x ∉ g) (s : List Char) :
    replacePieces front? new (g ++ s) = g ++ replacePieces front? new s := by
  induction g with
  | nil => rfl
  | cons c g ih =>
      rw [List.mem_cons, not_or] at hg
      rw [List.cons_append, replacePieces_cons_of_eq_none (h c (g ++ s) (Ne.symm hg.1)), ih hg.2]
      rfl

/-- A piece begins with its first character. -/
theorem piecesBeginWith_pieceLength? (x : Char) (w : List Char) :
    PiecesBeginWith x (pieceLength? (x :: w)) := by
  intro c s hc
  have hne : (x == c) = false := beq_eq_false_iff_ne.2 (Ne.symm hc)
  simp [pieceLength?, List.isPrefixOf, hne]

/-- A text is found as the piece it is. -/
theorem isPiece_pieceLength? {w : List Char} (hw : w ≠ []) : IsPiece (pieceLength? w) w := by
  refine ⟨hw, fun s => ?_⟩
  rw [pieceLength?, if_pos (List.isPrefixOf_iff_prefix.2 (List.prefix_append w s))]

end Text
end JsonTint
