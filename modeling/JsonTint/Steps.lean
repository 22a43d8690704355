/-!
# Steps that can fail

A row of steps fails where the first of them fails.  If it only depends on the
item of a step whether the step fails, and not on what has been built so far,
then the error of the row is that of its first faulty item.

Main results:

- Theorem `exists_of_bind_eq_ok` and theorem `bind_eq_error_iff`: two steps that
  follow each other.
- Theorem `foldlM_eq_error_iff`: a row of steps reports its first faulty item.
- Theorem `foldlM_settles`: what a row of steps leaves behind, if its items have
  keys and each key its own part of the state.
-/

namespace JsonTint

variable {α β ε σ : Type}

/-- The error of the first faulty item of a row, where `Faulty a e` says that the
item `a` is faulty and `e` is its error. -/
inductive FirstFault (Faulty : α → ε → Prop) : List α → ε → Prop
  | here {a : α} {items : List α} {e : ε} (h : Faulty a e) : FirstFault Faulty (a :: items) e
  | later {a : α} {items : List α} {e : ε} (h : ∀ e', ¬ Faulty a e')
      (rest : FirstFault Faulty items e) : FirstFault Faulty (a :: items) e

/-! ## Two steps -/

/-- A step that follows another one succeeds if both do. -/
theorem exists_of_bind_eq_ok {x : Except ε α} {f : α → Except ε β} {b : β}
    (h : x >>= f = .ok b) : ∃ a, x = .ok a ∧ f a = .ok b := by
  cases x with
  | error e => contradiction
  | ok a => exact ⟨a, rfl, h⟩

/-- A step that follows another one fails if either does. -/
theorem bind_eq_error_iff {x : Except ε α} {f : α → Except ε β} {e : ε} :
    x >>= f = .error e ↔ x = .error e ∨ ∃ a, x = .ok a ∧ f a = .error e := by
  cases x with
  | error e' =>
      constructor
      · intro h
        cases h
        exact Or.inl rfl
      · rintro (h | ⟨a, ha, -⟩)
        · cases h
          rfl
        · contradiction
  | ok a =>
      constructor
      · intro h
        exact Or.inr ⟨a, rfl, h⟩
      · rintro (h | ⟨b, hb, h⟩)
        · contradiction
        · cases hb
          exact h

/-- What is done with a result cannot fail any more. -/
theorem bind_pure_eq_error_iff {x : Except ε α} {g : α → β} {e : ε} :
    (x >>= fun a => pure (g a)) = .error e ↔ x = .error e := by
  rw [bind_eq_error_iff]
  constructor
  · rintro (h | ⟨a, -, ha⟩)
    · exact h
    · contradiction
  · exact Or.inl

/-- A result that is there is one of a step that succeeds. -/
theorem eq_ok_of_toOption {x : Except ε α} {a : α} (h : x.toOption = some a) : x = .ok a := by
  cases x with
  | error e => contradiction
  | ok b =>
      cases h
      rfl

/-- A step succeeds exactly if it does not fail. -/
theorem exists_eq_ok_iff {x : Except ε α} : (∃ a, x = .ok a) ↔ ∀ e, x ≠ .error e := by
  cases x with
  | error e => simp
  | ok a => simp

/-! ## A row of steps -/

variable {Faulty : α → ε → Prop} {items : List α} {e : ε}

/-- The first fault of a row is that of its first item, if this is faulty, or
else that of the others. -/
theorem firstFault_cons {a : α} :
    FirstFault Faulty (a :: items) e ↔
      Faulty a e ∨ (∀ e', ¬ Faulty a e') ∧ FirstFault Faulty items e := by
  constructor
  · intro h
    cases h with
    | here h => exact Or.inl h
    | later h rest => exact Or.inr ⟨h, rest⟩
  · rintro (h | ⟨h, rest⟩)
    · exact .here h
    · exact .later h rest

/-- The faults of the items may be read off what they are made from. -/
theorem firstFault_map {f : β → α} {items : List β} :
    FirstFault Faulty (items.map f) e ↔ FirstFault (fun b => Faulty (f b)) items e := by
  induction items with
  | nil =>
      constructor
      · intro h
        cases h
      · intro h
        cases h
  | cons b items ih => rw [List.map_cons, firstFault_cons, firstFault_cons, ih]

/-- What is reported is the error of some item. -/
theorem FirstFault.exists_mem (h : FirstFault Faulty items e) : ∃ a ∈ items, Faulty a e := by
  induction h with
  | here h => exact ⟨_, List.mem_cons_self, h⟩
  | later _ _ ih =>
      rcases ih with ⟨a, hmem, ha⟩
      exact ⟨a, List.mem_cons_of_mem _ hmem, ha⟩

/-- A row with a faulty item has a first one. -/
theorem exists_firstFault {a : α} (hmem : a ∈ items) (h : Faulty a e) :
    ∃ e', FirstFault Faulty items e' := by
  induction items with
  | nil => exact (List.not_mem_nil hmem).elim
  | cons b items ih =>
      by_cases hb : ∃ e', Faulty b e'
      · rcases hb with ⟨e', hb⟩
        exact ⟨e', .here hb⟩
      · rcases List.mem_cons.1 hmem with rfl | hmem
        · exact (hb ⟨e, h⟩).elim
        · rcases ih hmem with ⟨e', hrest⟩
          exact ⟨e', .later (not_exists.1 hb) hrest⟩

/-- Nothing is reported of a row exactly if none of its items is faulty. -/
theorem forall_not_firstFault_iff :
    (∀ e, ¬ FirstFault Faulty items e) ↔ ∀ a ∈ items, ∀ e, ¬ Faulty a e := by
  constructor
  · intro h a hmem e ha
    rcases exists_firstFault hmem ha with ⟨e', hfirst⟩
    exact h e' hfirst
  · intro h e hfirst
    rcases hfirst.exists_mem with ⟨a, hmem, ha⟩
    exact h a hmem e ha

/-- A row of steps reports its first faulty item. -/
theorem foldlM_eq_error_iff {f : σ → α → Except ε σ}
    (h : ∀ s a e, f s a = .error e ↔ Faulty a e) {s : σ} :
    items.foldlM f s = .error e ↔ FirstFault Faulty items e := by
  induction items generalizing s with
  | nil =>
      constructor
      · intro hnil
        contradiction
      · intro hnil
        cases hnil
  | cons a items ih =>
      rw [List.foldlM_cons, bind_eq_error_iff, firstFault_cons, h]
      apply or_congr_right
      constructor
      · rintro ⟨t, hfirst, hrest⟩
        refine ⟨fun e' ha => ?_, ih.1 hrest⟩
        rw [(h s a e').2 ha] at hfirst
        contradiction
      · rintro ⟨ha, hrest⟩
        cases hfirst : f s a with
        | error e' => exact (ha e' ((h s a e').1 hfirst)).elim
        | ok t => exact ⟨t, rfl, ih.2 hrest⟩

/-- If what is seen of a state is only changed by the items of one key, then a row
of steps that succeeds leaves what the step for such an item does, or what was
there before if there is none. -/
theorem foldlM_settles {κ ν : Type} {items : List (κ × ν)} {f : σ → κ × ν → Except ε σ}
    {view : σ → β} {k : κ}
    (hother : ∀ s item t, f s item = .ok t → item.1 ≠ k → view t = view s) {s t : σ}
    (h : items.foldlM f s = .ok t) :
    (∃ v u u', (k, v) ∈ items ∧ f u (k, v) = .ok u' ∧ view t = view u') ∨
      (∀ v, (k, v) ∉ items) ∧ view t = view s := by
  induction items generalizing s with
  | nil =>
      cases h
      exact Or.inr ⟨fun _ => List.not_mem_nil, rfl⟩
  | cons item items ih =>
      rw [List.foldlM_cons] at h
      rcases exists_of_bind_eq_ok h with ⟨u, hfirst, hrest⟩
      -- The last item of the key counts, so this one only does if none of the rest has the key.
      rcases ih hrest with ⟨v, w, w', hmem, hstep, hview⟩ | ⟨hnone, hview⟩
      · exact Or.inl ⟨v, w, w', List.mem_cons_of_mem _ hmem, hstep, hview⟩
      · by_cases hkey : item.1 = k
        · subst hkey
          exact Or.inl ⟨item.2, s, u, List.mem_cons_self, hfirst, hview⟩
        · refine Or.inr ⟨fun v hmem => ?_, hview.trans (hother s item u hfirst hkey)⟩
          rcases List.mem_cons.1 hmem with rfl | hmem
          · exact hkey rfl
          · exact hnone v hmem

end JsonTint
