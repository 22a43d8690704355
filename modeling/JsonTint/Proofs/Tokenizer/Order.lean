import JsonTint.Tokenizer.Basic

/-!
# The order in which rules are tried

Adding a rule puts it behind the rules of at least its priority and in front of
the others, so the rules of a tokenizer stand in the order of falling priority.
A rule leaves the order of the others as it is.

Main results:

- Theorem `insertRule_append_of_le` and theorem `insertRule_append_of_lt`: where
  in a row a rule is put.
- Theorem `ordered_addAll`: the rules stand in the order of falling priority.
- Theorem `perm_addAll`: none is lost and none comes up twice.
- Theorem `exists_split_addAll`: with one rule more, the others stand in the same
  order, and which of them stand in front of it.
-/

namespace JsonTint
namespace Tokenizer

/-- Rules in the order of falling priority. -/
def Ordered (rs : List Rule) : Prop :=
  rs.Pairwise fun a b => b.priority ≤ a.priority

variable {e r x : Rule} {before behind rs : List Rule}

/-- No rule has a higher priority than the first one. -/
theorem Ordered.priority_le_first {first : Rule} (h : Ordered (first :: rs))
    (hx : x ∈ first :: rs) : x.priority ≤ first.priority := by
  rcases List.mem_cons.1 hx with rfl | hx
  · exact Int.le_refl _
  · exact (List.pairwise_cons.1 h).1 x hx

/-! ## Putting one rule in its place -/

/-- A rule is put behind the rules of at least its priority. -/
theorem insertRule_append_of_le (h : ∀ x ∈ before, r.priority ≤ x.priority) :
    insertRule r (before ++ behind) = before ++ insertRule r behind := by
  induction before with
  | nil => rfl
  | cons x before ih =>
      rw [List.forall_mem_cons] at h
      rw [List.cons_append, insertRule, if_neg (Int.not_lt.2 h.1), ih h.2, List.cons_append]

/-- A rule is put in front of the rules of lower priority. -/
theorem insertRule_append_of_lt (h : ∀ x ∈ behind, x.priority < r.priority) :
    insertRule r (before ++ behind) = insertRule r before ++ behind := by
  induction before with
  | nil =>
      cases behind with
      | nil => rfl
      | cons x behind =>
          rw [List.forall_mem_cons] at h
          change insertRule r (x :: behind) = r :: x :: behind
          rw [insertRule, if_pos h.1]
  | cons x before ih =>
      rw [List.cons_append, insertRule, insertRule, ih]
      split <;> rfl

/-- The rules are the old ones and the one that is put among them. -/
theorem perm_insertRule (r : Rule) (rs : List Rule) : (insertRule r rs).Perm (r :: rs) := by
  induction rs with
  | nil => exact List.Perm.refl _
  | cons first rs ih =>
      rw [insertRule]
      split
      · exact List.Perm.refl _
      · exact (ih.cons first).trans (List.Perm.swap r first rs)

/-- Inserting a rule adds that rule and loses none. -/
theorem mem_insertRule : x ∈ insertRule r rs ↔ x = r ∨ x ∈ rs :=
  (perm_insertRule r rs).mem_iff.trans List.mem_cons

/-- Inserting a rule keeps the rules in order. -/
theorem ordered_insertRule (h : Ordered rs) : Ordered (insertRule r rs) := by
  induction rs with
  | nil => exact List.pairwise_singleton _ r
  | cons first rs ih =>
      rcases List.pairwise_cons.1 h with ⟨hfirst, hrs⟩
      rw [insertRule]
      split <;> rename_i hlt
      · exact List.pairwise_cons.2
          ⟨fun x hx => Int.le_trans (h.priority_le_first hx) (Int.le_of_lt hlt), h⟩
      · refine List.pairwise_cons.2 ⟨?_, ih hrs⟩
        intro x hx
        rcases mem_insertRule.1 hx with rfl | hx
        · exact Int.not_lt.1 hlt
        · exact hfirst x hx

/-! ## Adding rules -/

/-- Adding rules keeps the rules in order. -/
theorem ordered_addAll {t : Tokenizer} (h : Ordered t.rules) (rs : List Rule) :
    Ordered (t.addAll rs).rules := by
  induction rs generalizing t with
  | nil => exact h
  | cons r rs ih => exact ih (ordered_insertRule h)

/-- The rules are the old ones and those that are added. -/
theorem perm_addAll (t : Tokenizer) (rs : List Rule) :
    (t.addAll rs).rules.Perm (t.rules ++ rs) := by
  induction rs generalizing t with
  | nil =>
      rw [List.append_nil]
      exact List.Perm.refl _
  | cons r rs ih =>
      have hadd : (t.add r).rules.Perm (r :: t.rules) := perm_insertRule r t.rules
      exact (ih (t.add r)).trans ((hadd.append_right rs).trans List.perm_middle.symm)

/-- Adding rules adds these rules and loses none. -/
theorem mem_addAll {t : Tokenizer} : x ∈ (t.addAll rs).rules ↔ x ∈ t.rules ∨ x ∈ rs :=
  (perm_addAll t rs).mem_iff.trans List.mem_append

/-- Rules may be added in two parts. -/
theorem addAll_append (t : Tokenizer) (rs rest : List Rule) :
    t.addAll (rs ++ rest) = (t.addAll rs).addAll rest :=
  List.foldl_append

/-! ## One rule among the others -/

/-- A rule may stand between the rules `before` and the rules `behind`. -/
structure Between (e : Rule) (before behind : List Rule) : Prop where
  before : ∀ x ∈ before, e.priority ≤ x.priority
  behind : ∀ x ∈ behind, x.priority ≤ e.priority

/-- A rule that is put among rules in order cuts them in two. -/
theorem exists_split_insertRule (h : Ordered rs) :
    ∃ before behind, insertRule e rs = before ++ e :: behind ∧ rs = before ++ behind ∧
      Between e before behind ∧ ∀ x, x ∈ before ↔ x ∈ rs ∧ e.priority ≤ x.priority := by
  induction rs with
  | nil => exact ⟨[], [], rfl, rfl, ⟨by simp, by simp⟩, by simp⟩
  | cons first rs ih =>
      rcases List.pairwise_cons.1 h with ⟨hfirst, hrs⟩
      by_cases hlt : first.priority < e.priority
      · have hall : ∀ x ∈ first :: rs, x.priority < e.priority := by
          refine List.forall_mem_cons.2 ⟨hlt, fun x hx => ?_⟩
          exact Int.lt_of_le_of_lt (hfirst x hx) hlt
        refine ⟨[], first :: rs, by rw [insertRule, if_pos hlt]; rfl, rfl,
          ⟨by simp, fun x hx => Int.le_of_lt (hall x hx)⟩, fun x => ?_⟩
        constructor
        · intro hx
          exact (List.not_mem_nil hx).elim
        · rintro ⟨hx, hle⟩
          exact (Int.not_le.2 (hall x hx) hle).elim
      · have hle := Int.not_lt.1 hlt
        rcases ih hrs with ⟨before, behind, hinsert, hsplit, hbetween, hmem⟩
        refine ⟨first :: before, behind, ?_, by rw [hsplit]; rfl, ⟨?_, hbetween.behind⟩, ?_⟩
        · rw [insertRule, if_neg hlt, hinsert]
          rfl
        · exact List.forall_mem_cons.2 ⟨hle, hbetween.before⟩
        · intro x
          rw [List.mem_cons, hmem, List.mem_cons]
          constructor
          · rintro (rfl | hx)
            · exact ⟨Or.inl rfl, hle⟩
            · exact ⟨Or.inr hx.1, hx.2⟩
          · rintro ⟨rfl | hx, hx'⟩
            · exact Or.inl rfl
            · exact Or.inr ⟨hx, hx'⟩

/-- A rule that is added finds the same place among the others with and without
the rule `e`. -/
theorem Between.insertRule (h : Between e before behind) (r : Rule) :
    ∃ before' behind', insertRule r (before ++ e :: behind) = before' ++ e :: behind' ∧
      insertRule r (before ++ behind) = before' ++ behind' ∧ Between e before' behind' ∧
      ∀ x, x ∈ before' ↔ x ∈ before ∨ x = r ∧ e.priority < r.priority := by
  by_cases hlt : e.priority < r.priority
  · have hbehind : ∀ x ∈ behind, x.priority < r.priority := fun x hx =>
      Int.lt_of_le_of_lt (h.behind x hx) hlt
    refine ⟨Tokenizer.insertRule r before, behind, insertRule_append_of_lt ?_,
      insertRule_append_of_lt hbehind, ⟨?_, h.behind⟩, ?_⟩
    · exact List.forall_mem_cons.2 ⟨hlt, hbehind⟩
    · intro x hx
      rcases mem_insertRule.1 hx with rfl | hx
      · exact Int.le_of_lt hlt
      · exact h.before x hx
    · intro x
      rw [mem_insertRule, and_iff_left hlt, or_comm]
  · have hle := Int.not_lt.1 hlt
    have hbefore : ∀ x ∈ before, r.priority ≤ x.priority := fun x hx =>
      Int.le_trans hle (h.before x hx)
    refine ⟨before, Tokenizer.insertRule r behind, ?_, insertRule_append_of_le hbefore,
      ⟨h.before, ?_⟩, ?_⟩
    · rw [insertRule_append_of_le hbefore, Tokenizer.insertRule, if_neg hlt]
    · intro x hx
      rcases mem_insertRule.1 hx with rfl | hx
      · exact hle
      · exact h.behind x hx
    · intro x
      simp [hlt]

/-- Rules that are added find the same places among the others with and without
the rule `e`. -/
theorem Between.addAll (h : Between e before behind) (rs : List Rule) :
    ∃ before' behind',
      (Tokenizer.addAll ⟨before ++ e :: behind⟩ rs).rules = before' ++ e :: behind' ∧
      (Tokenizer.addAll ⟨before ++ behind⟩ rs).rules = before' ++ behind' ∧
      ∀ x, x ∈ before' ↔ x ∈ before ∨ x ∈ rs ∧ e.priority < x.priority := by
  induction rs generalizing before behind with
  | nil => exact ⟨before, behind, rfl, rfl, by simp⟩
  | cons r rs ih =>
      rcases h.insertRule r with ⟨before', behind', hwith, hwithout, hbetween, hmem⟩
      rcases ih hbetween with ⟨front, rest, hfront, hrest, hmem'⟩
      refine ⟨front, rest, ?_, ?_, ?_⟩
      · rw [← hfront, ← hwith]
        rfl
      · rw [← hrest, ← hwithout]
        rfl
      · intro x
        rw [hmem', hmem, List.mem_cons, or_assoc]
        apply or_congr Iff.rfl
        constructor
        · rintro (⟨rfl, hlt⟩ | hx)
          · exact ⟨Or.inl rfl, hlt⟩
          · exact ⟨Or.inr hx.1, hx.2⟩
        · rintro ⟨rfl | hx, hlt⟩
          · exact Or.inl ⟨rfl, hlt⟩
          · exact Or.inr ⟨hx, hlt⟩

/-- With the rule `e` added at some time, the other rules stand as they do
without it.  In front of `e` are those that were there before and have at least
its priority, and those that came later and have more. -/
theorem exists_split_addAll (e : Rule) (earlier later : List Rule) :
    ∃ before behind,
      (empty.addAll (earlier ++ e :: later)).rules = before ++ e :: behind ∧
      (empty.addAll (earlier ++ later)).rules = before ++ behind ∧
      ∀ r, r ∈ before ↔
        r ∈ earlier ∧ e.priority ≤ r.priority ∨ r ∈ later ∧ e.priority < r.priority := by
  have hordered : Ordered (empty.addAll earlier).rules := ordered_addAll List.Pairwise.nil earlier
  rcases exists_split_insertRule (e := e) hordered with
    ⟨before, behind, hinsert, hsplit, hbetween, hmem⟩
  rcases hbetween.addAll later with ⟨front, rest, hfront, hrest, hmem'⟩
  refine ⟨front, rest, ?_, ?_, ?_⟩
  · rw [addAll_append, ← hfront, ← hinsert]
    rfl
  · rw [addAll_append, ← hrest, ← hsplit]
  · intro r
    have hnil : r ∉ empty.rules := List.not_mem_nil
    rw [hmem', hmem, mem_addAll, or_iff_right hnil]

end Tokenizer
end JsonTint
