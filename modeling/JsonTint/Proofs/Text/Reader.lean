import JsonTint.Text.Reader

/-!
# What readers yield

A property of all values that a reader can yield, on whatever text, is proved
along the way in which the reader is composed.

Main results:

- Definition `Reader.Yields`: every value that a reader yields has a property.
- Theorems `Yields.bind`, `Yields.orElse` and `Yields.many`: the property for
  readers that are composed.
-/

namespace JsonTint
namespace Reader

variable {α β : Type} {P : α → Prop} {Q : β → Prop} {p q : Reader α}

/-- Every value that a reader yields has a property. -/
def Yields (p : Reader α) (P : α → Prop) : Prop :=
  ∀ s a rest, p s = some (a, rest) → P a

namespace Yields

/-- A reader that reads nothing yields its one value. -/
theorem pure {a : α} (h : P a) : Yields (Pure.pure a) P := by
  intro s b rest hread
  cases hread
  exact h

/-- A reader that fails yields nothing. -/
theorem failure : Yields failure P := by
  intro s a rest hread
  contradiction

/-- What follows a reader may rely on what that reader yields. -/
theorem bind {f : α → Reader β} (hp : Yields p P) (hf : ∀ a, P a → Yields (f a) Q) :
    Yields (p >>= f) Q := by
  intro s b rest hread
  rcases Option.bind_eq_some_iff.1 hread with ⟨⟨a, between⟩, hfirst, hrest⟩
  exact hf a (hp s a between hfirst) between b rest hrest

/-- What follows a reader may also disregard what that reader yields. -/
theorem bind_any {f : α → Reader β} (hf : ∀ a, Yields (f a) Q) : Yields (p >>= f) Q :=
  bind (P := fun _ => True) (fun _ _ _ _ => trivial) fun a _ => hf a

/-- Two readers tried in turn yield what either of them yields. -/
theorem orElse (hp : Yields p P) (hq : Yields q P) : Yields (p <|> q) P := by
  intro s a rest hread
  change (p s).orElse (fun _ => q s) = some (a, rest) at hread
  cases hfirst : p s with
  | none =>
      rw [hfirst] at hread
      exact hq s a rest hread
  | some read =>
      rw [hfirst] at hread
      cases hread
      exact hp s a rest hfirst

/-- What may be missing has the property if it is there. -/
theorem option (hp : Yields p P) : Yields (Reader.option p) fun a? => ∀ a ∈ a?, P a := by
  apply orElse
  · exact bind hp fun a ha => pure fun b hb => Option.mem_some.1 hb ▸ ha
  · exact pure fun a ha => by contradiction

/-- All values that are read in a row have the property, however many are asked
for. -/
theorem manyWithin (hp : Yields p P) (fuel : Nat) :
    Yields (Reader.manyWithin p fuel) fun as => ∀ a ∈ as, P a := by
  induction fuel with
  | zero => exact pure fun a ha => (List.not_mem_nil ha).elim
  | succ fuel ih =>
      intro s as rest hread
      cases hfirst : p s with
      | none =>
          simp only [Reader.manyWithin, hfirst] at hread
          cases hread
          exact fun a ha => (List.not_mem_nil ha).elim
      | some read =>
          rcases read with ⟨a, between⟩
          cases hothers : Reader.manyWithin p fuel between with
          | none =>
              simp only [Reader.manyWithin, hfirst, hothers] at hread
              contradiction
          | some read =>
              rcases read with ⟨others, rest'⟩
              simp only [Reader.manyWithin, hfirst, hothers] at hread
              cases hread
              exact List.forall_mem_cons.2
                ⟨hp s a between hfirst, ih between others rest hothers⟩

/-- All values that are read in a row have the property. -/
theorem many (hp : Yields p P) : Yields (Reader.many p) fun as => ∀ a ∈ as, P a :=
  fun s => manyWithin hp s.length s

/-- So have all values with separators between them. -/
theorem sepBy1 {separator : Reader Unit} (hp : Yields p P) :
    Yields (Reader.sepBy1 p separator) fun as => ∀ a ∈ as, P a := by
  refine bind hp fun first hfirst => bind (many (bind_any fun _ => hp)) fun others hothers => ?_
  exact pure (List.forall_mem_cons.2 ⟨hfirst, hothers⟩)

/-- What may be missing is read as a row, which is then empty. -/
theorem forall_mem_getD {as? : Option (List α)} (h : ∀ as ∈ as?, ∀ a ∈ as, P a) :
    ∀ a ∈ as?.getD [], P a := by
  cases as? with
  | none => exact fun a ha => (List.not_mem_nil ha).elim
  | some as => exact h as rfl

/-- A value that is read off a whole text has the property. -/
theorem readAll? {s : List Char} {a : α} (hp : Yields p P) (h : Reader.readAll? p s = some a) :
    P a := by
  rw [Reader.readAll?] at h
  split at h
  · next _ hread =>
    cases h
    exact hp s _ _ hread
  · contradiction

end Yields
end Reader
end JsonTint
