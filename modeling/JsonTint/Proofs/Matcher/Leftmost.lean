import JsonTint.Proofs.Matcher.Search
import JsonTint.Rule.Json

/-!
# The leftmost match behind an offset

What a search by offset finds is said here without the search: the first
position at or behind the offset where there is a match, and the end of the
preferred match there.  The offset only rules out positions, so it can move up to
the start of the match, and from inside a character to the end of that
character, without any change.

Main results:

- Theorem `Matcher.findAt_eq_none_iff` and theorem `Matcher.findAt_eq_some_iff`:
  a search by offset finds the leftmost match, if there is a match at all.
- Theorem `Matcher.Leftmost.later`: the leftmost match is also the leftmost one
  from every offset up to its start.
- Theorem `Matcher.Leftmost.within`: it lies behind the offset, in the text and
  between boundaries.
- Theorem `Rule.findAt_stable`: all of this for the matches of a rule.
-/

namespace JsonTint

open Text

namespace Matcher

/-- The match from `c` to `d` is the leftmost one in a text that does not start
before an offset: it is preferred at `c`, and from the offset up to `c` there is
no match. -/
structure Leftmost (m : Matcher) (s : List Char) (start : Nat) (c d : Cursor) : Prop where
  text_eq : c.text = s
  start_le : start ≤ c.offset
  matchAt_eq : m.matchAt c = some d
  matchAt_before :
    ∀ e : Cursor, e.text = s → start ≤ e.offset → e.offset < c.offset → m.matchAt e = none

variable {m : Matcher} {s : List Char} {start : Nat} {c d : Cursor}

/-! ## What a search by offset finds -/

/-- A search by offset finds nothing if no match starts at or behind the
offset. -/
theorem findAt_eq_none_iff :
    m.findAt s start = none ↔
      ∀ c : Cursor, c.text = s → start ≤ c.offset → m.matchAt c = none := by
  simp only [findAt, Cursor.findSome?_eq_none_iff, Cursor.reaches_ofText_iff, ite_eq_right_iff,
    Option.map_eq_none_iff]

/-- A search by offset finds the leftmost match. -/
theorem findAt_eq_some_iff {found : Nat × Nat} :
    m.findAt s start = some found ↔
      ∃ c d, m.Leftmost s start c d ∧ (c.offset, d.offset) = found := by
  simp only [findAt, Cursor.findSome?_eq_some_iff, Cursor.reaches_ofText_iff]
  constructor
  · rintro ⟨c, htext, hc, hnone⟩
    split at hc <;> rename_i hstart
    · rcases Option.map_eq_some_iff.1 hc with ⟨d, hmatch, hpair⟩
      refine ⟨c, d, ⟨htext, hstart, hmatch, ?_⟩, hpair⟩
      intro e he hle hlt
      simpa [hle] using hnone e he hlt
    · contradiction
  · rintro ⟨c, d, h, rfl⟩
    refine ⟨c, h.text_eq, ?_, ?_⟩
    · rw [if_pos h.start_le, h.matchAt_eq, Option.map_some]
    · intro e he hlt
      by_cases hle : start ≤ e.offset
      · rw [if_pos hle, h.matchAt_before e he hle hlt, Option.map_none]
      · rw [if_neg hle]

/-! ## The offset moved -/

/-- The leftmost match is also the leftmost one from every offset up to its
start. -/
theorem Leftmost.later {later : Nat} (h : m.Leftmost s start c d) (hle : start ≤ later)
    (hlater : later ≤ c.offset) : m.Leftmost s later c d where
  text_eq := h.text_eq
  start_le := hlater
  matchAt_eq := h.matchAt_eq
  matchAt_before := fun e he hlate => h.matchAt_before e he (Nat.le_trans hle hlate)

/-- A match ends at a position of the same text, at or behind its start. -/
theorem Leftmost.reaches (h : m.Leftmost s start c d) : c.Reaches d :=
  m.reaches_of_matchAt c d h.matchAt_eq

/-- The leftmost match lies behind the offset, in the text and between
boundaries. -/
theorem Leftmost.within (h : m.Leftmost s start c d) :
    start ≤ c.offset ∧ c.offset ≤ d.offset ∧ d.offset ≤ byteLength s ∧
      isBoundary s c.offset = true ∧ isBoundary s d.offset = true := by
  have hreach := h.reaches
  have htext : d.text = s := hreach.text_eq.trans h.text_eq
  refine ⟨h.start_le, hreach.offset_le, ?_, ?_, ?_⟩
  · rw [← htext]
    exact d.offset_le_byteLength_text
  · rw [← h.text_eq]
    exact c.isBoundary_offset
  · rw [← htext]
    exact d.isBoundary_offset

/-- A search that begins later finds nothing new. -/
theorem findAt_eq_none_of_le {later : Nat} (h : m.findAt s start = none) (hle : start ≤ later) :
    m.findAt s later = none := by
  rw [findAt_eq_none_iff] at h ⊢
  intro c htext hlater
  exact h c htext (Nat.le_trans hle hlater)

/-- A search that begins later, but not behind the match, finds the same match. -/
theorem findAt_eq_some_of_le {later : Nat} {found : Nat × Nat}
    (h : m.findAt s start = some found) (hle : start ≤ later) (hlater : later ≤ found.1) :
    m.findAt s later = some found := by
  rcases findAt_eq_some_iff.1 h with ⟨c, d, hleft, rfl⟩
  exact findAt_eq_some_iff.2 ⟨c, d, hleft.later hle hlater, rfl⟩

/-- A search finds the same from two offsets if no boundary lies at or behind the
first one and before the second, as from inside a character and its end. -/
theorem findAt_eq_of_no_boundary {later : Nat} (hle : start ≤ later)
    (hnone : ∀ n, isBoundary s n = true → start ≤ n → later ≤ n) :
    m.findAt s start = m.findAt s later := by
  cases hfound : m.findAt s start with
  | none => rw [findAt_eq_none_of_le hfound hle]
  | some found =>
      rcases findAt_eq_some_iff.1 hfound with ⟨c, d, hleft, rfl⟩
      rcases hleft.within with ⟨hstart, -, -, hboundary, -⟩
      rw [findAt_eq_some_of_le hfound hle (hnone c.offset hboundary hstart)]

/-- An empty match does not split a character. -/
example : (Pattern.empty.matcher (by decide)).findAt "é".toList 1 = some (2, 2) := by
  decide

/-- Behind the end of the text there is nothing to find. -/
theorem findAt_of_byteLength_lt (h : byteLength s < start) : m.findAt s start = none := by
  rw [findAt_eq_none_iff]
  rintro c rfl hstart
  have := c.offset_le_byteLength_text
  omega

end Matcher

namespace Rule

/-- Searching for a rule from an offset finds the leftmost match that does not
start before it, or nothing if there is none.  What is found lies behind the
offset, in the text and between boundaries, also from inside a character, where
the search is the one from the next boundary; behind the end of the text there
is nothing.  From a later offset nothing new is found, and up to the start of
the match the same is found.  With a pattern for the matcher, the preferred
match is the one to the first of its ends. -/
theorem findAt_stable (r : Rule) (s : List Char) {p q : Nat} (hle : p ≤ q) :
    (r.findAt s p = none → r.findAt s q = none) ∧
      (∀ start stop, r.findAt s p = some (start, stop) →
        (q ≤ start → r.findAt s q = some (start, stop)) ∧
          p ≤ start ∧ start ≤ stop ∧ stop ≤ byteLength s ∧
          isBoundary s start = true ∧ isBoundary s stop = true) ∧
      ((∀ n, isBoundary s n = true → p ≤ n → q ≤ n) → r.findAt s p = r.findAt s q) ∧
      (byteLength s < p → r.findAt s p = none) ∧
      (r.findAt s p = none ↔
        ∀ c : Cursor, c.text = s → p ≤ c.offset → r.matcher.matchAt c = none) ∧
      (∀ start stop, r.findAt s p = some (start, stop) ↔
        ∃ c d, r.matcher.Leftmost s p c d ∧ (c.offset, d.offset) = (start, stop)) ∧
      ∀ (pattern : Pattern) (h : pattern.advances = true), r.matcher = pattern.matcher h →
        ∀ c, r.matcher.matchAt c = (pattern.ends c).head? := by
  refine ⟨?_, ?_, ?_, ?_, ?_, ?_, ?_⟩
  · intro hnone
    exact Matcher.findAt_eq_none_of_le hnone hle
  · intro start stop hfound
    refine ⟨Matcher.findAt_eq_some_of_le hfound hle, ?_⟩
    rcases Matcher.findAt_eq_some_iff.1 hfound with ⟨c, d, hleft, hpair⟩
    cases hpair
    exact hleft.within
  · exact Matcher.findAt_eq_of_no_boundary hle
  · exact Matcher.findAt_of_byteLength_lt
  · exact Matcher.findAt_eq_none_iff
  · intro start stop
    exact Matcher.findAt_eq_some_iff
  · intro pattern h heq c
    rw [heq, Pattern.matchAt_matcher, Pattern.matchAt_eq]

/-- In the text `étrue_ null` the word `true` goes on with an underscore.  From
inside the first character as from its end, and up to its own start, the search
for keywords finds `null`; from inside that word and behind the text it finds
nothing. -/
theorem findAt_stable_keyword :
    keyword.findAt "étrue_ null".toList 1 = some (8, 12) ∧
      keyword.findAt "étrue_ null".toList 8 = some (8, 12) ∧
      12 ≤ byteLength "étrue_ null".toList ∧
      isBoundary "étrue_ null".toList 1 = false ∧
      keyword.findAt "étrue_ null".toList 1 = keyword.findAt "étrue_ null".toList 2 ∧
      keyword.findAt "étrue_ null".toList 9 = none ∧
      keyword.findAt "étrue_ null".toList 11 = none ∧
      keyword.findAt "étrue_ null".toList 13 = none := by
  have hnull : keyword.findAt "étrue_ null".toList 1 = some (8, 12) := by decide +kernel
  have hinside : isBoundary "étrue_ null".toList 1 = false := by decide
  have hrest : keyword.findAt "étrue_ null".toList 9 = none := by decide +kernel
  have hnext : ∀ n, isBoundary "étrue_ null".toList n = true → 1 ≤ n → 2 ≤ n := by
    intro n hn hle
    have hne : n ≠ 1 := by
      rintro rfl
      rw [hinside] at hn
      contradiction
    omega
  rcases (findAt_stable keyword "étrue_ null".toList (by decide : 1 ≤ 8)).2.1 8 12 hnull with
    ⟨hsame, -, -, hend, -⟩
  exact ⟨hnull, hsame (by decide), hend, hinside,
    (findAt_stable keyword _ (by decide : 1 ≤ 2)).2.2.1 hnext, hrest,
    (findAt_stable keyword _ (by decide : 9 ≤ 11)).1 hrest,
    (findAt_stable keyword _ (by decide : 13 ≤ 13)).2.2.2.1 (by decide)⟩

end Rule
end JsonTint
