import JsonTint.Text.Utf8

/-!
# Positions between the characters of a text

A cursor stands between two characters of a text and knows both sides, so what
is true at a position can depend on the whole text.  Moving a cursor never
changes the text it stands in.
-/

namespace JsonTint

open Text

/-- A position in a text: what lies before it, last character first, and what
lies after it, with the number of bytes before and of characters after. -/
structure Cursor where
  before : List Char
  after : List Char
  offset : Nat
  remaining : Nat
  offset_eq : offset = byteLength before
  remaining_eq : remaining = after.length

namespace Cursor

/-- The position in front of a text. -/
def ofText (s : List Char) : Cursor :=
  ⟨[], s, 0, s.length, rfl, rfl⟩

/-- The whole text a cursor stands in. -/
def text (c : Cursor) : List Char :=
  c.before.reverse ++ c.after

/-- The next character and the position behind it. -/
def next? (c : Cursor) : Option (Char × Cursor) :=
  match h : c.after with
  | [] => none
  | x :: rest =>
    some (x, {
      before := x :: c.before
      after := rest
      offset := c.offset + x.utf8Size
      remaining := c.remaining - 1
      offset_eq := by rw [byteLength_cons, ← c.offset_eq, Nat.add_comm]
      remaining_eq := by rw [c.remaining_eq, h, List.length_cons, Nat.add_sub_cancel] })

/-- The position `n` characters behind a cursor, or the end of the text. -/
def skip : Nat → Cursor → Cursor
  | 0, c => c
  | n + 1, c =>
    match c.next? with
    | none => c
    | some (_, d) => skip n d

/-- Whether a position lies at or behind another one in the same text. -/
def Reaches (c d : Cursor) : Prop :=
  ∃ n, d = c.skip n

/-- The characters between a position and a later one in the same text. -/
def upTo (c d : Cursor) : List Char :=
  takeBytes (d.offset - c.offset) c.after

/-- Tries `f` at `c` and at the positions behind it, at most `fuel` of them. -/
def findSomeWithin {α : Type} (f : Cursor → Option α) : Nat → Cursor → Option α
  | 0, c => f c
  | fuel + 1, c =>
    match f c with
    | some a => some a
    | none =>
      match c.next? with
      | none => none
      | some (_, d) => findSomeWithin f fuel d

/-- The first answer `f` gives at `c` or at a position behind it, up to and
including the end of the text. -/
def findSome? {α : Type} (f : Cursor → Option α) (c : Cursor) : Option α :=
  findSomeWithin f c.remaining c

/-! ## Laws -/

/-- A position is given by its two sides. -/
@[ext]
theorem ext {c d : Cursor} (hbefore : c.before = d.before) (hafter : c.after = d.after) :
    c = d := by
  rcases c with ⟨b, a, o, r, ho, hr⟩
  rcases d with ⟨b', a', o', r', ho', hr'⟩
  simp only at hbefore hafter
  subst hbefore hafter ho ho' hr hr'
  rfl

@[simp]
theorem text_ofText (s : List Char) : (ofText s).text = s :=
  rfl

/-- The offset of a position lies within the text. -/
theorem offset_le_byteLength_text (c : Cursor) : c.offset ≤ byteLength c.text := by
  rw [text, byteLength_append, byteLength_reverse, ← c.offset_eq]
  exact Nat.le_add_right _ _

/-- Stepping over a character moves it from one side to the other. -/
theorem next?_eq_some {c d : Cursor} {x : Char} (h : c.next? = some (x, d)) :
    c.after = x :: d.after ∧ d.before = x :: c.before := by
  unfold next? at h
  split at h
  · cases h
  · rename_i y rest hafter
    simp only [Option.some.injEq, Prod.mk.injEq] at h
    rcases h with ⟨rfl, rfl⟩
    exact ⟨hafter, rfl⟩

/-- There is nothing to step over at the end of the text only. -/
theorem next?_eq_none {c : Cursor} : c.next? = none ↔ c.after = [] := by
  unfold next?
  split <;> simp_all

/-- Stepping over a character stays in the same text. -/
theorem text_of_next? {c d : Cursor} {x : Char} (h : c.next? = some (x, d)) :
    d.text = c.text := by
  rcases next?_eq_some h with ⟨hafter, hbefore⟩
  simp [text, hafter, hbefore]

/-- Stepping over a character moves forward by its size. -/
theorem offset_of_next? {c d : Cursor} {x : Char} (h : c.next? = some (x, d)) :
    d.offset = c.offset + x.utf8Size := by
  rcases next?_eq_some h with ⟨-, hbefore⟩
  rw [d.offset_eq, hbefore, byteLength_cons, c.offset_eq, Nat.add_comm]

/-- Stepping over a character leaves one character less. -/
theorem remaining_of_next? {c d : Cursor} {x : Char} (h : c.next? = some (x, d)) :
    c.remaining = d.remaining + 1 := by
  rcases next?_eq_some h with ⟨hafter, -⟩
  rw [c.remaining_eq, hafter, List.length_cons, d.remaining_eq]

/-! ## Positions ahead -/

@[simp]
theorem skip_zero (c : Cursor) : c.skip 0 = c :=
  rfl

/-- The positions behind the next character are those behind a cursor. -/
theorem skip_of_next? {c d : Cursor} {x : Char} (h : c.next? = some (x, d)) (n : Nat) :
    c.skip (n + 1) = d.skip n := by
  simp only [skip, h]

/-- Moving forward drops characters from what lies ahead. -/
@[simp]
theorem after_skip (n : Nat) (c : Cursor) : (c.skip n).after = c.after.drop n := by
  induction n generalizing c with
  | zero => rfl
  | succ n ih =>
      cases hnext : c.next? with
      | none =>
          have hafter := next?_eq_none.1 hnext
          simp [skip, hnext, hafter]
      | some xd =>
          rcases xd with ⟨x, d⟩
          rw [skip_of_next? hnext, ih, (next?_eq_some hnext).1, List.drop_succ_cons]

/-- Moving forward puts characters onto what lies before. -/
@[simp]
theorem before_skip (n : Nat) (c : Cursor) :
    (c.skip n).before = (c.after.take n).reverse ++ c.before := by
  induction n generalizing c with
  | zero => rfl
  | succ n ih =>
      cases hnext : c.next? with
      | none =>
          have hafter := next?_eq_none.1 hnext
          simp [skip, hnext, hafter]
      | some xd =>
          rcases xd with ⟨x, d⟩
          rcases next?_eq_some hnext with ⟨hafter, hbefore⟩
          rw [skip_of_next? hnext, ih, hafter, hbefore]
          simp

/-- Two moves forward are one. -/
theorem skip_skip (m n : Nat) (c : Cursor) : (c.skip m).skip n = c.skip (m + n) := by
  apply Cursor.ext
  · simp only [before_skip, after_skip, ← List.append_assoc, ← List.reverse_append]
    rw [List.take_add]
  · simp only [after_skip, List.drop_drop]

/-- A position lies at itself. -/
theorem Reaches.refl (c : Cursor) : c.Reaches c :=
  ⟨0, rfl⟩

/-- The position behind the next character lies ahead. -/
theorem reaches_of_next? {c d : Cursor} {x : Char} (h : c.next? = some (x, d)) :
    c.Reaches d :=
  ⟨1, (skip_of_next? h 0).symm⟩

/-- What lies ahead of a position ahead lies ahead. -/
theorem Reaches.trans {c d e : Cursor} (hcd : c.Reaches d) (hde : d.Reaches e) :
    c.Reaches e := by
  rcases hcd with ⟨m, rfl⟩
  rcases hde with ⟨n, rfl⟩
  exact ⟨m + n, skip_skip m n c⟩

end Cursor
end JsonTint
