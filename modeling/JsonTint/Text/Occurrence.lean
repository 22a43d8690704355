/-!
# Finding a piece in a text

Where a piece occurs in a text, and what stands before, between and behind its
occurrences.
-/

namespace JsonTint
namespace Text

/-- At how many places of a text the piece `w` begins. -/
def occurrences (w : List Char) : List Char → Nat
  | [] => 0
  | c :: s => (if w.isPrefixOf (c :: s) then 1 else 0) + occurrences w s

/-- What stands before the first occurrence of the piece `w`, and behind it. -/
def splitFirst? (w : List Char) : List Char → Option (List Char × List Char)
  | [] => none
  | c :: s =>
    if w.isPrefixOf (c :: s) then some ([], (c :: s).drop w.length)
    else (splitFirst? w s).map fun parts => (c :: parts.1, parts.2)

/-- What stands between the first occurrence of `left` and the next one of
`right`. -/
def between? (left right s : List Char) : Option (List Char) :=
  match splitFirst? left s with
  | none => none
  | some (_, behind) => (splitFirst? right behind).map (·.1)

/-! ## Laws -/

/-- A piece at the front is the first one. -/
theorem splitFirst?_append {w : List Char} (hw : w ≠ []) (s : List Char) :
    splitFirst? w (w ++ s) = some ([], s) := by
  cases w with
  | nil => contradiction
  | cons c w =>
      have hfront : (c :: w).isPrefixOf (c :: (w ++ s)) = true :=
        List.isPrefixOf_iff_prefix.2 (List.prefix_append (c :: w) s)
      rw [List.cons_append, splitFirst?, if_pos hfront, List.length_cons, List.drop_succ_cons,
        List.drop_left]

/-- A character at which the piece does not begin stands before it. -/
theorem splitFirst?_cons_of_not_prefix {w : List Char} {c : Char} {s : List Char}
    (h : ¬ w <+: c :: s) :
    splitFirst? w (c :: s) = (splitFirst? w s).map fun parts => (c :: parts.1, parts.2) := by
  rw [splitFirst?, if_neg]
  rwa [List.isPrefixOf_iff_prefix]

/-- Characters with which the piece does not begin stand before it. -/
theorem splitFirst?_append_of_not_mem {x : Char} {w g : List Char} (hg : x ∉ g) (s : List Char) :
    splitFirst? (x :: w) (g ++ s) =
      (splitFirst? (x :: w) s).map fun parts => (g ++ parts.1, parts.2) := by
  induction g with
  | nil => simp
  | cons c g ih =>
      rw [List.mem_cons, not_or] at hg
      have hnot : ¬ x :: w <+: c :: (g ++ s) := by
        rw [List.cons_prefix_cons]
        exact fun h => hg.1 h.1
      rw [List.cons_append, splitFirst?_cons_of_not_prefix hnot, ih hg.2, Option.map_map]
      rfl

/-- A piece is found between two others that are the first ones. -/
theorem between?_of_splitFirst? {left right s before inside rest behind : List Char}
    (hleft : splitFirst? left s = some (before, rest))
    (hright : splitFirst? right rest = some (inside, behind)) :
    between? left right s = some inside := by
  simp only [between?, hleft, hright, Option.map_some]

end Text
end JsonTint
