import JsonTint.Proofs.Pattern.Ends

/-!
# Patterns that leave no choice

How the parts of a pattern run when the characters ahead decide what they take:
a class takes one character, a repeated class all that follow in a row, a
literal its own characters.

Main results:

- Theorem `run_star_chars`: a repeated class takes the whole run of its
  characters, provided that the rest does no better from inside that run.
- Theorem `run_plus_chars`: the same with at least one character.
- Theorem `run_literal`: a literal takes the text it is.
-/

namespace JsonTint

/-- Whether a text begins with a character of a class. -/
def CharClass.begins (cls : CharClass) (s : List Char) : Bool :=
  s.head?.any cls.contains

@[simp]
theorem CharClass.begins_nil (cls : CharClass) : cls.begins [] = false :=
  rfl

@[simp]
theorem CharClass.begins_cons (cls : CharClass) (x : Char) (s : List Char) :
    cls.begins (x :: s) = cls.contains x :=
  rfl

@[simp]
theorem Text.inRanges_nil (x : Char) : inRanges [] x = false :=
  rfl

/-- The range of one character holds that character only. -/
theorem Text.inRanges_cons_self (y : Char) (ranges : List (Char × Char)) (x : Char) :
    inRanges ((y, y) :: ranges) x = (x == y || inRanges ranges x) := by
  have hle : (y ≤ x ∧ x ≤ y) ↔ x = y := Std.le_antisymm_iff.trans eq_comm
  rw [Bool.eq_iff_iff, Bool.or_eq_true, beq_iff_eq, ← hle]
  simp [inRanges]

/-- The class of one character holds that character only. -/
@[simp]
theorem CharClass.contains_single (y x : Char) :
    (CharClass.single y).contains x = (x == y) := by
  simp [CharClass.single, CharClass.contains, Text.inRanges_cons_self]

namespace Pattern

variable {α : Type}

/-! ## Single steps -/

/-- A class takes one of its characters. -/
theorem run_chars (cls : CharClass) (rest : Cursor → Option α) (c : Cursor) :
    (chars cls).run rest c = if cls.begins c.after then rest (c.skip 1) else none := by
  rw [run]
  cases hafter : c.after with
  | nil => simp [Cursor.next?_eq_none.2 hafter]
  | cons x s =>
      rw [Cursor.next?_of_after hafter]
      rfl

/-- A single character takes itself. -/
theorem run_just (x : Char) (rest : Cursor → Option α) (c : Cursor) :
    (just x).run rest c = if c.after.head? = some x then rest (c.skip 1) else none := by
  rw [just, run_chars]
  cases c.after with
  | nil => rfl
  | cons y s => simp

theorem run_assert (condition : Assertion) (rest : Cursor → Option α) (c : Cursor) :
    (assert condition).run rest c = if condition.holds c then rest c else none :=
  rfl

theorem run_seq (p q : Pattern) (rest : Cursor → Option α) (c : Cursor) :
    (seq p q).run rest c = p.run (q.run rest) c :=
  rfl

/-- A part that may be missing is tried first, and then left out. -/
theorem run_optional (p : Pattern) (rest : Cursor → Option α) (c : Cursor) :
    (optional p).run rest c = (p.run rest c).or (rest c) := by
  rw [optional, run, run]
  cases p.run rest c <;> rfl

/-- The first of two alternatives is tried first. -/
theorem run_alt (p q : Pattern) (rest : Cursor → Option α) (c : Cursor) :
    (alt p q).run rest c = (p.run rest c).or (q.run rest c) := by
  rw [run]
  cases p.run rest c <;> rfl

/-! ## Runs of characters -/

/-- The rest of a job gains nothing by starting inside a run of characters of a
class instead of some other position. -/
def SettlesBehind (cls : CharClass) (rest : Cursor → Option α) : Prop :=
  ∀ d e, cls.begins d.after = true → (rest e).or (rest d) = rest e

/-- A rest that always succeeds is content with any position. -/
theorem settlesBehind_of_isSome (cls : CharClass) {rest : Cursor → Option α}
    (h : ∀ c, (rest c).isSome) : SettlesBehind cls rest := by
  intro d e _
  rcases Option.isSome_iff_exists.1 (h e) with ⟨a, ha⟩
  rw [ha, Option.some_or]

/-- A rest that fails inside the run has to wait for its end. -/
theorem settlesBehind_of_eq_none {cls : CharClass} {rest : Cursor → Option α}
    (h : ∀ c, cls.begins c.after = true → rest c = none) : SettlesBehind cls rest := by
  intro d e hd
  rw [h d hd, Option.or_none]

/-- A repeated class takes the whole run of its characters. -/
theorem run_star_chars {cls : CharClass} {rest : Cursor → Option α}
    (hrest : SettlesBehind cls rest) (c : Cursor) :
    (star (chars cls)).run rest c =
      rest (c.skip (c.after.takeWhile cls.contains).length) := by
  induction c using Cursor.induction_next with
  | step c ih =>
      rw [run_star rfl, run_chars]
      cases hafter : c.after with
      | nil => simp
      | cons x s =>
          have hnext := Cursor.next?_of_after hafter
          have hskip : (c.skip 1).after = s := by simp [hafter]
          by_cases hx : cls.contains x = true
          · have hbegins : cls.begins c.after = true := by rw [hafter]; exact hx
            simp only [CharClass.begins_cons, hx, if_true]
            rw [ih x _ hnext, hrest c _ hbegins, hskip, List.takeWhile_cons_of_pos hx,
              List.length_cons, Cursor.skip_skip, Nat.add_comm]
          · simp [hx]

/-- A class once or more takes the whole run of its characters, if there is
one. -/
theorem run_plus_chars {cls : CharClass} {rest : Cursor → Option α}
    (hrest : SettlesBehind cls rest) (c : Cursor) :
    (plus (chars cls)).run rest c =
      if cls.begins c.after then rest (c.skip (c.after.takeWhile cls.contains).length)
      else none := by
  rw [plus, run, run_chars, run_star_chars hrest, Cursor.after_skip, Cursor.skip_skip]
  cases c.after with
  | nil => rfl
  | cons x s =>
      by_cases hx : cls.contains x = true
      · simp [hx, Nat.add_comm]
      · simp [hx]

/-- A character that may be missing is taken if it is there, provided that the
rest fails in front of it. -/
theorem run_optional_chars {cls : CharClass} {rest : Cursor → Option α}
    (hrest : ∀ c, cls.begins c.after = true → rest c = none) (c : Cursor) :
    (optional (chars cls)).run rest c = rest (c.skip (if cls.begins c.after then 1 else 0)) := by
  rw [run_optional, run_chars]
  by_cases h : cls.begins c.after = true
  · simp [h, hrest c h]
  · simp [h]

/-- A literal takes the text it is. -/
theorem run_literal (s : List Char) (rest : Cursor → Option α) (c : Cursor) :
    (literal s).run rest c =
      if s.isPrefixOf c.after then rest (c.skip s.length) else none := by
  have hcons : ∀ (x : Char) (s : List Char) (rest : Cursor → Option α) (c : Cursor),
      (literal (x :: s)).run rest c = (just x).run (fun d => (literal s).run rest d) c := by
    intro x s rest c
    cases s with
    | nil => rfl
    | cons y s => rfl
  induction s generalizing c with
  | nil => rfl
  | cons x s ih =>
      rw [hcons, just, run_chars]
      cases hafter : c.after with
      | nil => simp
      | cons y t =>
          simp only [ih, Cursor.after_skip, hafter, Cursor.skip_skip, CharClass.begins_cons,
            CharClass.contains_single, List.drop_succ_cons, List.drop_zero,
            List.isPrefixOf_cons_cons, List.length_cons, Nat.add_comm 1]
          by_cases hxy : y = x <;> simp [hxy, Ne.symm]

end Pattern
end JsonTint
