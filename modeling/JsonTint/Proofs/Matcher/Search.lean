import JsonTint.Matcher
import JsonTint.Proofs.Cursor.Movement
import JsonTint.Rule.Basic

/-!
# What a search finds

A search goes through the positions of a text, so it finds the same match from
every position up to its start.  A search by offset begins at the first position
that does not lie before the offset; from a position of the text it is the search
from that position on.

Main results:

- Theorem `Matcher.search_eq`: a search tries the position it is at and then
  those behind the next character.
- Theorems `Matcher.search_eq_none_of_reaches` and `Matcher.search_of_reaches`: a
  search that begins later finds nothing new and loses only what it has passed.
- Theorem `Matcher.findAt_offset`: a search by the offset of a position is the
  search from there.
- Theorem `Rule.startsAt_offset`: a match of a rule starts at the offset of a
  position if its matcher matches there.
-/

namespace JsonTint

namespace Matcher

/-! ## From a position on -/

/-- A search tries the position it is at and then those behind it. -/
theorem search_eq (m : Matcher) (c : Cursor) :
    m.search c =
      ((m.matchAt c).map fun stop => (c, stop)).or (c.next?.bind fun xd => m.search xd.2) :=
  Cursor.findSome?_eq _ c

/-- A search finds the preferred match at a position it has not passed. -/
theorem search_sound {m : Matcher} {c start stop : Cursor} (h : m.search c = some (start, stop)) :
    c.Reaches start ∧ m.matchAt start = some stop := by
  rcases Cursor.exists_reaches_of_findSome? h with ⟨d, hreach, hd⟩
  rcases Option.map_eq_some_iff.1 hd with ⟨e, he, hpair⟩
  cases hpair
  exact ⟨hreach, he⟩

/-- A search that begins later finds nothing new. -/
theorem search_eq_none_of_reaches {m : Matcher} {c d : Cursor} (h : m.search c = none)
    (hreach : c.Reaches d) : m.search d = none :=
  Cursor.findSome?_eq_none_of_reaches h hreach

/-- A search that begins later, but not behind the match, finds the same match. -/
theorem search_of_reaches {m : Matcher} {c d start stop : Cursor}
    (h : m.search c = some (start, stop)) (hreach : c.Reaches d)
    (hahead : d.offset ≤ start.offset) : m.search d = some (start, stop) := by
  refine Cursor.findSome?_of_reaches h hreach ?_
  intro e _ he
  rcases Option.map_eq_some_iff.1 he with ⟨f, hf, hpair⟩
  cases hpair
  exact hahead

/-! ## From an offset on -/

/-- A search by the offset of a position is the search from there. -/
theorem findAt_offset (m : Matcher) (c : Cursor) :
    m.findAt c.text c.offset =
      (m.search c).map fun found => (found.1.offset, found.2.offset) := by
  rw [findAt, Cursor.findSome?_eq_of_reaches c.reaches_ofText, search, ← Cursor.findSome?_map]
  · apply Cursor.findSome?_congr
    intro d hd
    rw [if_pos hd.offset_le, Option.map_map]
    rfl
  · intro e _ hlt
    exact if_neg (Nat.not_le.2 hlt)

end Matcher

namespace Rule

/-- A match of a rule in a text starts at an offset. -/
def StartsAt (r : Rule) (s : List Char) (start : Nat) : Prop :=
  ∃ stop, r.findAt s start = some (start, stop)

/-- A match starts at the offset of a position if the matcher
matches there. -/
theorem findAt_offset_eq_iff {r : Rule} {c : Cursor} {stop : Nat} :
    r.findAt c.text c.offset = some (c.offset, stop) ↔
      ∃ d, r.matcher.matchAt c = some d ∧ d.offset = stop := by
  rw [findAt, Matcher.findAt_offset]
  constructor
  · intro h
    rcases Option.map_eq_some_iff.1 h with ⟨⟨start, d⟩, hsearch, hpair⟩
    rcases Matcher.search_sound hsearch with ⟨hreach, hmatch⟩
    rw [Prod.mk.injEq] at hpair
    rw [hreach.eq_of_offset_eq hpair.1.symm] at hmatch
    exact ⟨d, hmatch, hpair.2⟩
  · rintro ⟨d, hmatch, rfl⟩
    rw [Matcher.search_eq, hmatch]
    rfl

/-- A match of a rule starts at the offset of a position if there is one there. -/
theorem startsAt_offset {r : Rule} {c : Cursor} :
    r.StartsAt c.text c.offset ↔ (r.matcher.matchAt c).isSome := by
  simp only [StartsAt, findAt_offset_eq_iff, Option.isSome_iff_exists]
  constructor
  · rintro ⟨_, d, hmatch, -⟩
    exact ⟨d, hmatch⟩
  · rintro ⟨d, hmatch⟩
    exact ⟨_, d, hmatch, rfl⟩

end Rule
end JsonTint
