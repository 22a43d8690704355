import Mathlib.Data.List.Nodup
import JsonTint.Proofs.Tokenizer.Order
import JsonTint.Tokenizer.Stream

/-!
# Adding rules sorts them stably

However many rules are added, they stand as if all of them had been sorted once by
falling priority, with rules of one priority in the order in which they were
added.  Sorting anew after each rule comes to the same.

Main results:

- Theorem `StableSort.unique` and theorem `stableSort_sortRules`: there is one
  stable sort of a row, and merge sort gives it.
- Theorem `filter_insertRule` and theorem `StableSort.insertRule`: one more rule
  comes behind those of its priority.
- Theorem `addAll_sorts_stably`: adding rules to a tokenizer.
-/

namespace JsonTint
namespace Tokenizer

variable {r : Rule} {rs rs' history sorted sorted' : List Rule} {t : Tokenizer}

/-- The row `sorted` holds the rules `rs` in the order of falling priority, and
those of each priority in the order they have in `rs`. -/
structure StableSort (rs sorted : List Rule) : Prop where
  perm : sorted.Perm rs
  ordered : Ordered sorted
  stable : ∀ p : Int, sorted.filter (·.priority = p) = rs.filter (·.priority = p)

/-- The rules sorted by falling priority. -/
def sortRules (rs : List Rule) : List Rule :=
  rs.mergeSort fun a b => b.priority ≤ a.priority

/-- Puts a rule behind all others and sorts them anew. -/
def addSorting (t : Tokenizer) (r : Rule) : Tokenizer where
  rules := sortRules (t.rules ++ [r])

/-! ## Stable sorts -/

/-- Rules that are in order are sorted as they stand. -/
theorem stableSort_self (h : Ordered rs) : StableSort rs rs :=
  ⟨List.Perm.refl rs, h, fun _ => rfl⟩

/-- Two ordered rows are equal if they hold the same rules of each priority in the
same order. -/
theorem eq_of_filter_eq (h : Ordered sorted) (h' : Ordered sorted') (hperm : sorted.Perm sorted')
    (hfilter : ∀ p : Int, sorted.filter (·.priority = p) = sorted'.filter (·.priority = p)) :
    sorted = sorted' := by
  induction sorted generalizing sorted' with
  | nil => exact (List.nil_perm.1 hperm).symm
  | cons a rest ih =>
      cases sorted' with
      | nil => exact (List.not_mem_nil (hperm.subset List.mem_cons_self)).elim
      | cons b rest' =>
          -- The first rules are both of the highest priority, so they are of one priority.
          have hle : b.priority ≤ a.priority :=
            h.priority_le_first (hperm.symm.subset List.mem_cons_self)
          have hge : a.priority ≤ b.priority :=
            h'.priority_le_first (hperm.subset List.mem_cons_self)
          have hfirst := hfilter a.priority
          rw [List.filter_cons_of_pos (by simp),
            List.filter_cons_of_pos (by simpa using Int.le_antisymm hle hge)] at hfirst
          rcases List.cons.inj hfirst with ⟨rfl, -⟩
          rw [ih h.of_cons h'.of_cons hperm.cons_inv]
          intro p
          have hp := hfilter p
          rw [List.filter_cons, List.filter_cons] at hp
          split at hp
          · exact (List.cons.inj hp).2
          · exact hp

/-- A row has one stable sort. -/
theorem StableSort.unique (h : StableSort rs sorted) (h' : StableSort rs sorted') :
    sorted = sorted' :=
  eq_of_filter_eq h.ordered h'.ordered (h.perm.trans h'.perm.symm) fun p =>
    (h.stable p).trans (h'.stable p).symm

/-- Merge sort is stable. -/
theorem stableSort_sortRules (rs : List Rule) : StableSort rs (sortRules rs) := by
  have htrans : ∀ a b c : Rule, decide (b.priority ≤ a.priority) = true →
      decide (c.priority ≤ b.priority) = true → decide (c.priority ≤ a.priority) = true := by
    simp only [decide_eq_true_eq]
    intro a b c hab hbc
    exact Int.le_trans hbc hab
  have htotal : ∀ a b : Rule,
      (decide (b.priority ≤ a.priority) || decide (a.priority ≤ b.priority)) = true := by
    intro a b
    simpa using Int.le_total b.priority a.priority
  have hperm : (sortRules rs).Perm rs := List.mergeSort_perm rs _
  refine ⟨hperm, ?_, fun p => ?_⟩
  · have hpairwise := List.pairwise_mergeSort htrans htotal rs
    simp only [decide_eq_true_eq] at hpairwise
    exact hpairwise
  · -- Rules of one priority are in order as they are, so sorting leaves them in their order.
    have hequal : (rs.filter (·.priority = p)).Pairwise
        fun a b => decide (b.priority ≤ a.priority) = true := by
      apply List.pairwise_of_forall_mem_list
      intro a ha b hb
      rw [List.mem_filter, decide_eq_true_eq] at ha hb
      simp [ha.2, hb.2]
    have hsub := (List.sublist_mergeSort htrans htotal hequal List.filter_sublist).filter
      (fun r : Rule => decide (r.priority = p))
    rw [List.filter_filter] at hsub
    simp only [Bool.and_self] at hsub
    exact (hsub.eq_of_length (hperm.filter _).length_eq.symm).symm

/-! ## One rule more -/

/-- A rule that is put among ordered rules comes behind those of its priority. -/
theorem filter_insertRule (h : Ordered rs) (r : Rule) (p : Int) :
    (insertRule r rs).filter (·.priority = p) =
      rs.filter (·.priority = p) ++ [r].filter (·.priority = p) := by
  induction rs with
  | nil => rfl
  | cons first rest ih =>
      rw [insertRule]
      split <;> rename_i hlt
      · -- No rule from here on has the priority of the new one.
        by_cases hp : r.priority = p
        · have hnone : (first :: rest).filter (·.priority = p) = [] := by
            rw [List.filter_eq_nil_iff]
            intro x hx
            rw [decide_eq_true_eq, ← hp]
            exact Int.ne_of_lt (Int.lt_of_le_of_lt (h.priority_le_first hx) hlt)
          rw [List.filter_cons_of_pos (by simpa using hp), hnone]
          simp [hp]
        · rw [List.filter_cons_of_neg (by simpa using hp)]
          simp [hp]
      · rw [List.filter_cons, List.filter_cons, ih h.of_cons]
        split <;> rfl

/-- With one rule more, the rules are still sorted stably. -/
theorem StableSort.insertRule (h : StableSort history sorted) (r : Rule) :
    StableSort (history ++ [r]) (insertRule r sorted) where
  perm := (perm_insertRule r sorted).trans
    ((h.perm.cons r).trans (List.perm_append_singleton r history).symm)
  ordered := ordered_insertRule h.ordered
  stable p := by rw [filter_insertRule h.ordered, h.stable, List.filter_append]

/-- Putting a rule behind all others and sorting anew puts it in its place. -/
theorem addSorting_eq_add (h : Ordered t.rules) (r : Rule) : t.addSorting r = t.add r := by
  have hrules := (stableSort_sortRules (t.rules ++ [r])).unique
    ((stableSort_self h).insertRule r)
  rw [addSorting, hrules, add]

/-! ## Many rules more -/

/-- Adding rules to sorted ones sorts all of them, stably. -/
theorem StableSort.addAll (h : StableSort history t.rules) (rs : List Rule) :
    StableSort (history ++ rs) (t.addAll rs).rules := by
  induction rs generalizing t history with
  | nil =>
      rw [List.append_nil]
      exact h
  | cons r rs ih =>
      have hrest : StableSort (history ++ [r] ++ rs) ((t.add r).addAll rs).rules :=
        ih (h.insertRule r)
      rw [List.append_assoc] at hrest
      exact hrest

/-- Sorting afresh for every rule that is added gives the rules that insertion
gives. -/
theorem foldl_addSorting_eq_addAll (h : Ordered t.rules) (rs : List Rule) :
    rs.foldl addSorting t = t.addAll rs := by
  induction rs generalizing t with
  | nil => rfl
  | cons r rs ih =>
      have hadd : Ordered (t.add r).rules := ordered_insertRule h
      rw [List.foldl_cons, addSorting_eq_add h, ih hadd]
      rfl

/-- Rules of different priorities stand in one order, however they were added. -/
theorem addAll_eq_of_perm (h : StableSort history t.rules) (hperm : rs.Perm rs')
    (hdistinct : ((history ++ rs).map (·.priority)).Nodup) : t.addAll rs' = t.addAll rs := by
  have hsort := h.addAll rs
  have hsort' := h.addAll rs'
  have hsame : (t.addAll rs').rules.Perm (t.addAll rs).rules :=
    hsort'.perm.trans ((hperm.symm.append_left history).trans hsort.perm.symm)
  have hequal : (t.addAll rs').rules = (t.addAll rs).rules := by
    refine hsame.eq_of_pairwise ?_ hsort'.ordered hsort.ordered
    intro a b ha hb hle hge
    have hinj := List.inj_on_of_nodup_map hdistinct
    have hmem : a ∈ history ++ rs := hsort.perm.subset (hsame.subset ha)
    exact hinj hmem (hsort.perm.subset hb) (Int.le_antisymm hge hle)
  exact congrArg Tokenizer.mk hequal

/-- Whatever has been added before, adding rules to a tokenizer keeps its rules the
stable sort of all that were ever added: none is lost and none comes up twice,
priorities never rise, and rules of one priority stand in the order in which they
were added.  This is what merge sort gives at once, and what sorting anew after
each rule gives.  It holds for the tokenizer without rules and for that of JSON
in the beginning.  If all priorities are different, then the order in which rules
are added makes no difference, neither to the rules nor to the tokens of a text. -/
theorem addAll_sorts_stably :
    StableSort [] empty.rules ∧ StableSort Rule.json json.rules ∧
      ∀ (t : Tokenizer) (history : List Rule), StableSort history t.rules → ∀ rs,
        StableSort (history ++ rs) (t.addAll rs).rules ∧
        (t.addAll rs).rules = sortRules (history ++ rs) ∧
        rs.foldl addSorting t = t.addAll rs ∧
        ∀ rs', rs.Perm rs' → ((history ++ rs).map (·.priority)).Nodup →
          t.addAll rs' = t.addAll rs ∧ ∀ s, (t.addAll rs').tokens s = (t.addAll rs).tokens s := by
  have hempty : StableSort [] empty.rules := stableSort_self List.Pairwise.nil
  refine ⟨hempty, hempty.addAll Rule.json, ?_⟩
  intro t history h rs
  refine ⟨h.addAll rs, (h.addAll rs).unique (stableSort_sortRules _),
    foldl_addSorting_eq_addAll h.ordered rs, ?_⟩
  intro rs' hperm hdistinct
  have hsame := addAll_eq_of_perm h hperm hdistinct
  exact ⟨hsame, fun s => by rw [hsame]⟩

/-- Rules of the extreme priorities of 32 bits stand around those of JSON, in
whatever order they are added. -/
theorem addAll_sorts_stably_extremes :
    (json.addAll [{ Rule.keyword with priority := -2147483648 },
        { Rule.number with priority := 2147483647 }]).rules =
      [{ Rule.number with priority := 2147483647 }, Rule.quoted, Rule.keyword, Rule.number,
        { Rule.keyword with priority := -2147483648 }] ∧
      json.addAll [{ Rule.number with priority := 2147483647 },
          { Rule.keyword with priority := -2147483648 }] =
        json.addAll [{ Rule.keyword with priority := -2147483648 },
          { Rule.number with priority := 2147483647 }] := by
  have hdistinct : ((Rule.json ++ ([{ Rule.keyword with priority := -2147483648 },
      { Rule.number with priority := 2147483647 }] : List Rule)).map (·.priority)).Nodup := by
    decide
  have hsorted := addAll_sorts_stably.2.2 json Rule.json addAll_sorts_stably.2.1
    [{ Rule.keyword with priority := -2147483648 }, { Rule.number with priority := 2147483647 }]
  exact ⟨rfl, (hsorted.2.2.2 _ (List.Perm.swap _ _ []) hdistinct).1⟩

-- A rule of a priority that is there already comes behind the older one.
example :
    (json.addAll [{ Rule.number with priority := 90 }]).rules =
      [Rule.quoted, Rule.keyword, { Rule.number with priority := 90 }, Rule.number] :=
  rfl

end Tokenizer
end JsonTint
