import JsonTint.Matcher
import JsonTint.Pattern.Basic

/-!
# Running a pattern

The preferred end of a match is found without listing the others: a pattern is
run with a continuation that says whether the rest of the job can be done from
a given end.  `run_eq` says that this is the first end, in order of
preference, from which the continuation succeeds.  A pattern that advances is
run in this way as a matcher.
-/

namespace JsonTint
namespace Pattern

/-- Runs at most `fuel` rounds, more rounds first, and then goes on with
`rest`. -/
def runRepeat {α : Type} (round : (Cursor → Option α) → Cursor → Option α)
    (rest : Cursor → Option α) : Nat → Cursor → Option α
  | 0, c => rest c
  | fuel + 1, c =>
    match round (runRepeat round rest fuel) c with
    | some a => some a
    | none => rest c

/-- Matches a pattern at a position and goes on with `rest`, trying the ends of
the match in their order of preference. -/
def run {α : Type} : Pattern → (Cursor → Option α) → Cursor → Option α
  | empty, rest, c => rest c
  | chars cls, rest, c =>
    match c.next? with
    | none => none
    | some (x, d) => if cls.contains x then rest d else none
  | assert condition, rest, c => if condition.holds c then rest c else none
  | seq p q, rest, c => p.run (q.run rest) c
  | alt p q, rest, c =>
    match p.run rest c with
    | some a => some a
    | none => q.run rest c
  | star p, rest, c => runRepeat p.run rest c.remaining c

/-- The end of the preferred match at a position. -/
def matchAt (p : Pattern) (c : Cursor) : Option Cursor :=
  p.run some c

/-! ## Running a pattern takes its ends in order -/

/-- To go on from each end of a row in turn is to take the ends that follow
them in order. -/
theorem findSome?_flatMap_ends {α : Type} {rest next : Cursor → Option α}
    {more : Cursor → List Cursor} (h : ∀ d, next d = (more d).findSome? rest)
    (ds : List Cursor) : ds.findSome? next = (ds.flatMap more).findSome? rest := by
  induction ds with
  | nil => rfl
  | cons d ds ih =>
    rw [List.findSome?_cons, List.flatMap_cons, List.findSome?_append, h, ih]
    cases (more d).findSome? rest <;> rfl

/-- Rounds are run to the first of their ends from which the rest succeeds. -/
theorem runRepeat_eq {α : Type} (round : (Cursor → Option α) → Cursor → Option α)
    (roundEnds : Cursor → List Cursor)
    (h : ∀ rest c, round rest c = (roundEnds c).findSome? rest)
    (rest : Cursor → Option α) (fuel : Nat) (c : Cursor) :
    runRepeat round rest fuel c = (repeatEnds roundEnds fuel c).findSome? rest := by
  induction fuel generalizing c with
  | zero => simp [runRepeat, repeatEnds]
  | succ fuel ih =>
    rw [runRepeat, repeatEnds, h, findSome?_flatMap_ends ih, List.findSome?_append]
    cases ((roundEnds c).flatMap (repeatEnds roundEnds fuel)).findSome? rest <;> simp

/-- A pattern is run to the first of its ends from which the rest succeeds. -/
theorem run_eq {α : Type} (p : Pattern) (rest : Cursor → Option α) (c : Cursor) :
    p.run rest c = (p.ends c).findSome? rest := by
  induction p generalizing rest c with
  | empty => simp [run, ends]
  | chars cls =>
    rw [run, ends]
    cases c.next? with
    | none => rfl
    | some xd =>
      rcases xd with ⟨x, d⟩
      by_cases h : cls.contains x = true <;> simp [h]
  | assert condition =>
    by_cases h : condition.holds c = true <;> simp [run, ends, h]
  | seq p q ihp ihq =>
    rw [run, ends, ihp]
    exact findSome?_flatMap_ends (ihq rest) (p.ends c)
  | alt p q ihp ihq =>
    rw [run, ends, ihp, ihq, List.findSome?_append]
    cases (p.ends c).findSome? rest <;> rfl
  | star p ih => rw [run, ends, runRepeat_eq p.run p.ends (fun rest c => ih rest c)]

/-- The preferred match ends at the first end. -/
theorem matchAt_eq (p : Pattern) (c : Cursor) : p.matchAt c = (p.ends c).head? := by
  rw [matchAt, run_eq]
  cases p.ends c <;> simp

/-! ## Ends lie ahead -/

/-- Rounds end at or behind the position where they start. -/
theorem repeatEnds_reaches {round : Cursor → List Cursor}
    (hround : ∀ c, ∀ d ∈ round c, c.Reaches d) (fuel : Nat) (c : Cursor) :
    ∀ d ∈ repeatEnds round fuel c, c.Reaches d := by
  induction fuel generalizing c with
  | zero =>
    intro d hd
    rw [repeatEnds, List.mem_singleton] at hd
    exact hd ▸ Cursor.Reaches.refl c
  | succ fuel ih =>
    intro d hd
    rw [repeatEnds, List.mem_append, List.mem_flatMap, List.mem_singleton] at hd
    rcases hd with ⟨e, he, hd⟩ | rfl
    · exact (hround c e he).trans (ih e d hd)
    · exact Cursor.Reaches.refl d

/-- A match ends at or behind the position where it starts. -/
theorem ends_reaches (p : Pattern) (c : Cursor) : ∀ d ∈ p.ends c, c.Reaches d := by
  induction p generalizing c with
  | empty =>
    intro d hd
    rw [ends, List.mem_singleton] at hd
    exact hd ▸ Cursor.Reaches.refl c
  | chars cls =>
    intro d hd
    rw [ends] at hd
    cases hnext : c.next? with
    | none => simp [hnext] at hd
    | some xe =>
      rcases xe with ⟨x, e⟩
      by_cases hx : cls.contains x = true
      · have hde : d = e := by simpa [hnext, hx] using hd
        exact hde ▸ Cursor.reaches_of_next? hnext
      · simp [hnext, hx] at hd
  | assert condition =>
    intro d hd
    by_cases hc : condition.holds c = true
    · have hdc : d = c := by simpa [ends, hc] using hd
      exact hdc ▸ Cursor.Reaches.refl c
    · simp [ends, hc] at hd
  | seq p q ihp ihq =>
    intro d hd
    rw [ends, List.mem_flatMap] at hd
    rcases hd with ⟨e, he, hd⟩
    exact (ihp c e he).trans (ihq e d hd)
  | alt p q ihp ihq =>
    intro d hd
    rw [ends, List.mem_append] at hd
    rcases hd with hd | hd
    · exact ihp c d hd
    · exact ihq c d hd
  | star p ih => exact repeatEnds_reaches ih _ c

/-- The preferred match ends at or behind the position where it starts. -/
theorem matchAt_reaches {p : Pattern} {c d : Cursor} (h : p.matchAt c = some d) :
    c.Reaches d := by
  rw [matchAt_eq] at h
  cases hends : p.ends c with
  | nil => simp [hends] at h
  | cons e es =>
    have hde : e = d := by simpa [hends] using h
    exact ends_reaches p c d (by simp [hends, hde])

/-- A pattern that advances as a matcher. -/
def matcher (p : Pattern) (_ : p.advances = true) : Matcher where
  matchAt := p.matchAt
  reaches_of_matchAt := fun _ _ => matchAt_reaches

/-- The matcher of a pattern matches where the pattern does. -/
@[simp]
theorem matchAt_matcher (p : Pattern) (h : p.advances = true) (c : Cursor) :
    (p.matcher h).matchAt c = p.matchAt c :=
  rfl

end Pattern
end JsonTint
