import Mathlib.Data.List.Basic
import JsonTint.Pattern.Search
import JsonTint.Proofs.Cursor.Movement

/-!
# Where the matches of a repetition end

A pattern whose matches are never empty ends behind the position where it
starts, so a repetition of it runs out of characters before it runs out of
rounds.

Main results:

- Theorem `offset_lt_of_mem_ends`: a pattern that may not be empty moves forward.
- Theorem `ends_star`: a repetition is one round and a repetition behind it, or
  nothing at all.
- Theorem `run_star`: the same for how a repetition is run.
-/

namespace JsonTint
namespace Pattern

/-! ## Moving forward -/

/-- A match that may not be empty ends behind the position where it starts. -/
theorem offset_lt_of_mem_ends {p : Pattern} (h : p.mayBeEmpty = false) {c d : Cursor}
    (hd : d ∈ p.ends c) : c.offset < d.offset := by
  induction p generalizing c d with
  | empty => contradiction
  | assert condition => contradiction
  | star p ih => contradiction
  | chars cls =>
      rw [ends] at hd
      cases hnext : c.next? with
      | none => simp [hnext] at hd
      | some xe =>
          rcases xe with ⟨x, e⟩
          by_cases hx : cls.contains x = true
          · have hde : d = e := by simpa [hnext, hx] using hd
            exact hde ▸ Cursor.offset_lt_of_next? hnext
          · simp [hnext, hx] at hd
  | seq p q ihp ihq =>
      rw [ends, List.mem_flatMap] at hd
      rcases hd with ⟨e, he, hd⟩
      have hce := (p.ends_reaches c e he).offset_le
      have hed := (q.ends_reaches e d hd).offset_le
      -- One of the two parts moves forward, and the other does not move back.
      rcases Bool.and_eq_false_iff.1 h with hp | hq
      · exact Nat.lt_of_lt_of_le (ihp hp he) hed
      · exact Nat.lt_of_le_of_lt hce (ihq hq hd)
  | alt p q ihp ihq =>
      rw [ends, List.mem_append] at hd
      rcases Bool.or_eq_false_iff.1 h with ⟨hp, hq⟩
      rcases hd with hd | hd
      · exact ihp hp hd
      · exact ihq hq hd

/-- Fewer characters are left behind a match that may not be empty. -/
theorem remaining_lt_of_mem_ends {p : Pattern} (h : p.mayBeEmpty = false) {c d : Cursor}
    (hd : d ∈ p.ends c) : d.remaining < c.remaining :=
  (p.ends_reaches c d hd).remaining_lt (offset_lt_of_mem_ends h hd)

/-! ## Repetitions -/

section Repetition

variable {round : Cursor → List Cursor} (hround : ∀ c, ∀ d ∈ round c, d.remaining < c.remaining)
include hround

/-- One more round than there are characters left changes nothing. -/
theorem repeatEnds_succ {fuel : Nat} {c : Cursor} (hfuel : c.remaining ≤ fuel) :
    repeatEnds round (fuel + 1) c = repeatEnds round fuel c := by
  induction fuel generalizing c with
  | zero =>
      have hnone : round c = [] := by
        rw [List.eq_nil_iff_forall_not_mem]
        intro d hd
        have := hround c d hd
        omega
      simp only [repeatEnds, hnone, List.flatMap_nil, List.nil_append]
  | succ fuel ih =>
      rw [repeatEnds, repeatEnds]
      congr 1
      apply List.flatMap_congr
      intro d hd
      have := hround c d hd
      exact ih (by omega)

/-- A repetition needs no more rounds than there are characters left. -/
theorem repeatEnds_of_remaining_le {fuel : Nat} {c : Cursor} (hfuel : c.remaining ≤ fuel) :
    repeatEnds round fuel c = repeatEnds round c.remaining c := by
  induction hfuel with
  | refl => rfl
  | step hle ih => rw [repeatEnds_succ hround hle, ih]

end Repetition

/-- A repetition takes a round and repeats, or stops. -/
theorem ends_star {p : Pattern} (h : p.mayBeEmpty = false) (c : Cursor) :
    (star p).ends c = (p.ends c).flatMap (star p).ends ++ [c] := by
  have hround : ∀ c, ∀ d ∈ p.ends c, d.remaining < c.remaining :=
    fun c d hd => remaining_lt_of_mem_ends h hd
  rw [ends, ← repeatEnds_succ hround (Nat.le_refl _), repeatEnds]
  congr 1
  apply List.flatMap_congr
  intro d hd
  rw [ends, repeatEnds_of_remaining_le hround (Nat.le_of_lt (hround c d hd))]

/-- A repetition is run by running a round and the repetition behind it; if
nothing comes of that, the rest is tried at once. -/
theorem run_star {α : Type} {p : Pattern} (h : p.mayBeEmpty = false)
    (rest : Cursor → Option α) (c : Cursor) :
    (star p).run rest c = (p.run ((star p).run rest) c).or (rest c) := by
  rw [run_eq, ends_star h, List.findSome?_append, run_eq p,
    findSome?_flatMap_ends (run_eq (star p) rest)]
  simp

end Pattern
end JsonTint
