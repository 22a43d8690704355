import JsonTint.Text.Boundary
import JsonTint.Text.Cursor

/-!
# Moving a cursor forward

The position some characters behind a cursor, the pieces of a text that lie
between positions, and what a search over positions finds.

Main results:

- Theorem `slice?_of_reaches`: what lies between two positions can be cut out.
- Theorem `reaches_ofText_iff`: the positions ahead of the beginning of a text are
  those in the text.
- Theorem `findSome?_eq`: a search tries the position it is at and then goes on
  behind the next character.
- Theorem `findSome?_eq_none_iff` and theorem `findSome?_eq_some_iff`: a search
  finds what there is at the first position that has anything.
- Theorem `findSome?_eq_none_of_reaches` and theorem `findSome?_of_reaches`:
  beginning later loses only what lies before the new beginning.
-/

namespace JsonTint
namespace Cursor

open Text

/-! ## The position behind some characters -/

/-- The next character is the first one ahead. -/
theorem next?_of_after {c : Cursor} {x : Char} {s : List Char} (h : c.after = x :: s) :
    c.next? = some (x, c.skip 1) := by
  cases hnext : c.next? with
  | none =>
      rw [next?_eq_none.1 hnext] at h
      contradiction
  | some xd =>
      rcases xd with ⟨y, d⟩
      have hy : y :: d.after = x :: s := (next?_eq_some hnext).1.symm.trans h
      rw [skip_of_next? hnext, skip_zero, (List.cons.inj hy).1]

/-- Moving forward leaves fewer characters. -/
@[simp]
theorem remaining_skip (n : Nat) (c : Cursor) : (c.skip n).remaining = c.remaining - n := by
  rw [remaining_eq, remaining_eq, after_skip, List.length_drop]

/-- Moving forward adds the bytes of what is passed. -/
theorem offset_skip (n : Nat) (c : Cursor) :
    (c.skip n).offset = c.offset + byteLength (c.after.take n) := by
  rw [offset_eq, before_skip, byteLength_append, byteLength_reverse, ← offset_eq, Nat.add_comm]

/-- Moving over at least one character moves forward. -/
theorem offset_lt_skip {n : Nat} {c : Cursor} (hpos : 0 < n) (hle : n ≤ c.after.length) :
    c.offset < (c.skip n).offset := by
  have hlength := length_le_byteLength (c.after.take n)
  rw [List.length_take, Nat.min_eq_left hle] at hlength
  rw [offset_skip]
  omega

/-- What lies between a cursor and a later position. -/
theorem upTo_skip (n : Nat) (c : Cursor) : c.upTo (c.skip n) = c.after.take n := by
  have h := takeBytes_append (c.after.take n) (c.after.drop n)
  rw [List.take_append_drop] at h
  rw [upTo, offset_skip, Nat.add_sub_cancel_left, h]

/-! ## Later positions -/

/-- The position behind some characters lies ahead. -/
theorem reaches_skip (n : Nat) (c : Cursor) : c.Reaches (c.skip n) :=
  ⟨n, rfl⟩

/-- A later position has no lesser offset. -/
theorem Reaches.offset_le {c d : Cursor} (h : c.Reaches d) : c.offset ≤ d.offset := by
  rcases h with ⟨n, rfl⟩
  rw [offset_skip]
  exact Nat.le_add_right _ _

/-- A later position lies in the same text. -/
theorem Reaches.text_eq {c d : Cursor} (h : c.Reaches d) : d.text = c.text := by
  rcases h with ⟨n, rfl⟩
  simp only [text, before_skip, after_skip, List.reverse_append, List.reverse_reverse,
    List.append_assoc, List.take_append_drop]

/-- What lies ahead begins with what lies before a later position. -/
theorem Reaches.after_eq {c d : Cursor} (h : c.Reaches d) : c.after = c.upTo d ++ d.after := by
  rcases h with ⟨n, rfl⟩
  rw [upTo_skip, after_skip, List.take_append_drop]

/-- The offset of a later position adds the bytes that lie between. -/
theorem Reaches.offset_eq {c d : Cursor} (h : c.Reaches d) :
    d.offset = c.offset + byteLength (c.upTo d) := by
  rcases h with ⟨n, rfl⟩
  rw [upTo_skip, offset_skip]

/-- A later position is the same one or lies behind the next character. -/
theorem Reaches.eq_or_next? {c d : Cursor} (h : c.Reaches d) :
    d = c ∨ ∃ x e, c.next? = some (x, e) ∧ e.Reaches d := by
  rcases h with ⟨n, rfl⟩
  cases n with
  | zero => exact Or.inl rfl
  | succ n =>
      cases hnext : c.next? with
      | none => exact Or.inl (by simp [skip, hnext])
      | some xe =>
          rcases xe with ⟨x, e⟩
          exact Or.inr ⟨x, e, rfl, n, skip_of_next? hnext n⟩

/-- The position behind the next character has a greater offset. -/
theorem offset_lt_of_next? {c d : Cursor} {x : Char} (h : c.next? = some (x, d)) :
    c.offset < d.offset := by
  have hsize := x.utf8Size_pos
  have hoffset := offset_of_next? h
  omega

/-- Positions in one text are told apart by their offsets. -/
theorem Reaches.eq_of_offset_eq {c d : Cursor} (h : c.Reaches d) (ho : c.offset = d.offset) :
    d = c := by
  rcases h.eq_or_next? with heq | ⟨x, e, hnext, hreach⟩
  · exact heq
  · have hlt := offset_lt_of_next? hnext
    have hle := hreach.offset_le
    omega

/-- Of two positions ahead, the one with the lesser offset comes first. -/
theorem Reaches.of_offset_le {c d e : Cursor} (hd : c.Reaches d) (he : c.Reaches e)
    (hle : d.offset ≤ e.offset) : d.Reaches e := by
  rcases hd with ⟨m, rfl⟩
  rcases he with ⟨n, rfl⟩
  rcases Nat.le_total m n with hmn | hnm
  · exact ⟨n - m, by rw [skip_skip, Nat.add_sub_cancel' hmn]⟩
  · have hback : (c.skip n).Reaches (c.skip m) :=
      ⟨m - n, by rw [skip_skip, Nat.add_sub_cancel' hnm]⟩
    rw [hback.eq_of_offset_eq (Nat.le_antisymm hback.offset_le hle)]
    exact Reaches.refl _

/-- No more characters are left at a later position. -/
theorem Reaches.remaining_le {c d : Cursor} (h : c.Reaches d) : d.remaining ≤ c.remaining := by
  rcases h with ⟨n, rfl⟩
  rw [remaining_skip]
  exact Nat.sub_le _ _

/-- Fewer characters are left at a position that lies behind. -/
theorem Reaches.remaining_lt {c d : Cursor} (h : c.Reaches d) (ho : c.offset < d.offset) :
    d.remaining < c.remaining := by
  rcases h.eq_or_next? with rfl | ⟨x, e, hnext, hreach⟩
  · exact (Nat.lt_irrefl _ ho).elim
  · have hstep := remaining_of_next? hnext
    have hle := hreach.remaining_le
    omega

/-- Every position in a text lies at or behind its beginning. -/
theorem reaches_ofText (c : Cursor) : (ofText c.text).Reaches c := by
  have hlength : c.before.length = c.before.reverse.length := List.length_reverse.symm
  refine ⟨c.before.length, Cursor.ext ?_ ?_⟩
  · rw [before_skip]
    simp only [ofText, text]
    rw [hlength, List.take_left, List.reverse_reverse, List.append_nil]
  · rw [after_skip]
    simp only [ofText, text]
    rw [hlength, List.drop_left]

/-- The positions ahead of the beginning of a text are those in the text. -/
theorem reaches_ofText_iff {s : List Char} {c : Cursor} :
    (ofText s).Reaches c ↔ c.text = s := by
  constructor
  · intro h
    exact h.text_eq
  · rintro rfl
    exact c.reaches_ofText

/-- Induction over the positions of a text, from its end. -/
theorem induction_next {motive : Cursor → Prop}
    (step : ∀ c, (∀ x d, c.next? = some (x, d) → motive d) → motive c) (c : Cursor) :
    motive c := by
  generalize hn : c.remaining = n
  induction n generalizing c with
  | zero =>
      apply step
      intro x d hnext
      have := remaining_of_next? hnext
      omega
  | succ n ih =>
      apply step
      intro x d hnext
      have := remaining_of_next? hnext
      exact ih d (by omega)

/-! ## Cutting at positions -/

/-- A position stands at a boundary of its text. -/
theorem isBoundary_offset (c : Cursor) : isBoundary c.text c.offset = true := by
  have h := isBoundary_append c.before.reverse c.after
  rwa [byteLength_reverse, ← c.offset_eq] at h

/-- What lies between two positions can be cut out of their text. -/
theorem slice?_of_reaches {c d : Cursor} (h : c.Reaches d) :
    slice? c.text c.offset d.offset = some (c.upTo d) := by
  have hslice := slice?_append c.before.reverse (c.upTo d) d.after
  rw [byteLength_reverse, ← c.offset_eq, ← h.offset_eq, ← h.after_eq] at hslice
  exact hslice

/-- What lies ahead of a position can be cut out of its text. -/
theorem slice?_after (c : Cursor) :
    slice? c.text c.offset (byteLength c.text) = some c.after := by
  have hslice := slice?_append c.before.reverse c.after []
  have hlength : byteLength c.text = c.offset + byteLength c.after := by
    rw [Cursor.text, byteLength_append, byteLength_reverse, ← c.offset_eq]
  rw [byteLength_reverse, ← c.offset_eq, ← hlength, List.append_nil] at hslice
  exact hslice

/-! ## Searching from a position on -/

variable {α : Type} {f g : Cursor → Option α}

/-- A search tries the position it is at and then those behind it. -/
theorem findSome?_eq (f : Cursor → Option α) (c : Cursor) :
    c.findSome? f = (f c).or (c.next?.bind fun xd => xd.2.findSome? f) := by
  cases hnext : c.next? with
  | none =>
      have hzero : c.remaining = 0 := by
        rw [remaining_eq, next?_eq_none.1 hnext, List.length_nil]
      simp [findSome?, hzero, findSomeWithin]
  | some xd =>
      rcases xd with ⟨x, d⟩
      have hsucc := remaining_of_next? hnext
      rw [findSome?, hsucc, findSomeWithin, hnext]
      cases f c <;> rfl

/-- A search depends only on the positions at and behind its beginning. -/
theorem findSome?_congr {c : Cursor} (h : ∀ d, c.Reaches d → f d = g d) :
    c.findSome? f = c.findSome? g := by
  induction c using induction_next with
  | step c ih =>
      rw [findSome?_eq, findSome?_eq, h c (Reaches.refl c)]
      cases hnext : c.next? with
      | none => rfl
      | some xd =>
          rcases xd with ⟨x, d⟩
          have hcd := reaches_of_next? hnext
          rw [Option.bind_some, Option.bind_some,
            ih x d hnext fun e he => h e (hcd.trans he)]

/-- What is found is changed behind the search or at each position. -/
theorem findSome?_map {β : Type} (k : α → β) (f : Cursor → Option α) (c : Cursor) :
    c.findSome? (fun d => (f d).map k) = (c.findSome? f).map k := by
  induction c using induction_next with
  | step c ih =>
      rw [findSome?_eq, findSome?_eq, Option.map_or]
      cases hnext : c.next? with
      | none => rfl
      | some xd => rw [Option.bind_some, Option.bind_some, ih _ xd.2 hnext]

/-- Nothing is found if there is nothing at any position ahead. -/
theorem findSome?_eq_none_iff {c : Cursor} :
    c.findSome? f = none ↔ ∀ d, c.Reaches d → f d = none := by
  induction c using induction_next with
  | step c ih =>
      rw [findSome?_eq, Option.or_eq_none_iff]
      constructor
      · rintro ⟨hf, hrest⟩ d hd
        rcases hd.eq_or_next? with rfl | ⟨x, e, hnext, hed⟩
        · exact hf
        · rw [hnext] at hrest
          exact (ih x e hnext).1 hrest d hed
      · intro h
        refine ⟨h c (Reaches.refl c), ?_⟩
        cases hnext : c.next? with
        | none => rfl
        | some xe =>
            rcases xe with ⟨x, e⟩
            have hce := reaches_of_next? hnext
            exact (ih x e hnext).2 fun d hd => h d (hce.trans hd)

/-- A search passes positions at which there is nothing. -/
theorem findSome?_eq_of_reaches {c d : Cursor} (hreach : c.Reaches d)
    (hnone : ∀ e, c.Reaches e → e.offset < d.offset → f e = none) :
    c.findSome? f = d.findSome? f := by
  induction c using induction_next with
  | step c ih =>
      rcases hreach.eq_or_next? with rfl | ⟨x, e, hnext, hed⟩
      · rfl
      · have hce := reaches_of_next? hnext
        have hlt : c.offset < d.offset :=
          Nat.lt_of_lt_of_le (offset_lt_of_next? hnext) hed.offset_le
        rw [findSome?_eq, hnone c (Reaches.refl c) hlt, hnext]
        exact ih x e hnext hed fun e' he' => hnone e' (hce.trans he')

/-- What is found is what there is at the first position ahead that has
anything. -/
theorem findSome?_eq_some_iff {c : Cursor} {a : α} :
    c.findSome? f = some a ↔
      ∃ d, c.Reaches d ∧ f d = some a ∧
        ∀ e, c.Reaches e → e.offset < d.offset → f e = none := by
  constructor
  · intro h
    induction c using induction_next with
    | step c ih =>
        rw [findSome?_eq] at h
        cases hf : f c with
        | some b =>
            rw [hf, Option.some_or] at h
            refine ⟨c, Reaches.refl c, hf.trans h, ?_⟩
            intro e he hlt
            exact absurd he.offset_le (Nat.not_le.2 hlt)
        | none =>
            rw [hf, Option.none_or] at h
            rcases Option.bind_eq_some_iff.1 h with ⟨⟨x, d⟩, hnext, hfound⟩
            rcases ih x d hnext hfound with ⟨e, hreach, he, hnone⟩
            refine ⟨e, (reaches_of_next? hnext).trans hreach, he, ?_⟩
            intro e' he' hlt
            rcases he'.eq_or_next? with rfl | ⟨x', d', hnext', hreach'⟩
            · exact hf
            · rw [hnext] at hnext'
              cases hnext'
              exact hnone e' hreach' hlt
  · rintro ⟨d, hreach, hd, hnone⟩
    rw [findSome?_eq_of_reaches hreach hnone, findSome?_eq, hd, Option.some_or]

/-- What is found is found at a later position. -/
theorem exists_reaches_of_findSome? {c : Cursor} {a : α} (h : c.findSome? f = some a) :
    ∃ d, c.Reaches d ∧ f d = some a := by
  rcases findSome?_eq_some_iff.1 h with ⟨d, hreach, hd, -⟩
  exact ⟨d, hreach, hd⟩

/-- What is not found from a position on is not found from a later one on. -/
theorem findSome?_eq_none_of_reaches {c d : Cursor} (h : c.findSome? f = none)
    (hreach : c.Reaches d) : d.findSome? f = none := by
  rw [findSome?_eq_none_iff] at h ⊢
  intro e he
  exact h e (hreach.trans he)

/-- What is found from a position on is found from every position up to it. -/
theorem findSome?_of_reaches {c d : Cursor} {a : α} (h : c.findSome? f = some a)
    (hreach : c.Reaches d)
    (hahead : ∀ e, c.Reaches e → f e = some a → d.offset ≤ e.offset) :
    d.findSome? f = some a := by
  rcases findSome?_eq_some_iff.1 h with ⟨e, hce, he, hnone⟩
  refine findSome?_eq_some_iff.2 ⟨e, hreach.of_offset_le hce (hahead e hce he), he, ?_⟩
  intro e' he'
  exact hnone e' (hreach.trans he')

end Cursor
end JsonTint
