import Mathlib.Logic.Basic
import JsonTint.Proofs.Matcher.Leftmost
import JsonTint.Proofs.Tokenizer.Order
import JsonTint.Proofs.Tokenizer.Tiling

/-!
# What a rule does that matches nothing but empty pieces

A rule whose matches are all empty gives no tokens.  Still it takes part in the
choice of a rule: where it matches and no rule before it does, the scan steps
over a character, and the rules behind it are not asked.  So it takes away the
tokens that they have there, and makes no other difference.

Main results:

- Theorems `Rule.takesNothing_empty` and `Rule.takesNothing_assert`: the empty
  pattern and the assertions take nothing.
- Theorems `tokenAt?_of_hides` and `tokenAt?_of_not_hides`: what such a rule does
  at one position.
- Theorem `plainScan_eq_iff`: the scans with and without it differ exactly if it
  takes away a token.
- Theorem `tokens_addAll_eq_iff`: the same for a tokenizer to which it is added.
-/

namespace JsonTint

namespace Rule

/-- All matches of a rule are empty. -/
def TakesNothing (r : Rule) : Prop :=
  ∀ s start found, r.findAt s start = some found → found.1 = found.2

/-- A rule takes nothing if its matcher ends each match where it starts. -/
theorem takesNothing_of_matchAt {r : Rule}
    (h : ∀ c d, r.matcher.matchAt c = some d → d.offset = c.offset) : r.TakesNothing := by
  intro s start found hfound
  rcases Matcher.findAt_eq_some_iff.1 hfound with ⟨c, d, hleft, rfl⟩
  exact (h c d hleft.matchAt_eq).symm

/-- The empty pattern takes nothing. -/
theorem takesNothing_empty {r : Rule} (h : r.matcher.matchAt = Pattern.empty.matchAt) :
    r.TakesNothing := by
  apply takesNothing_of_matchAt
  intro c d hmatch
  rw [h] at hmatch
  cases hmatch
  rfl

/-- An assertion takes nothing. -/
theorem takesNothing_assert {r : Rule} {condition : Assertion}
    (h : r.matcher.matchAt = (Pattern.assert condition).matchAt) : r.TakesNothing := by
  apply takesNothing_of_matchAt
  intro c d hmatch
  rw [h, Pattern.matchAt, Pattern.run] at hmatch
  split at hmatch
  · cases hmatch
    rfl
  · contradiction

/-- Where a rule that takes nothing matches, it ends where it starts. -/
theorem TakesNothing.offset_eq {r : Rule} (h : r.TakesNothing) {c d : Cursor}
    (hmatch : r.matcher.matchAt c = some d) : d.offset = c.offset :=
  (h c.text c.offset (c.offset, d.offset) (findAt_offset_eq_iff.2 ⟨d, hmatch, rfl⟩)).symm

end Rule

namespace Tokenizer

/-- At the offset `start` the rule `e` matches, and none of the rules `before`
does. -/
def Hides (before : List Rule) (e : Rule) (s : List Char) (start : Nat) : Prop :=
  e.StartsAt s start ∧ ∀ r ∈ before, ¬ r.StartsAt s start

variable {before behind : List Rule} {e : Rule} {c : Cursor}

/-- The rules in front are tried before those behind. -/
theorem ruleAt?_append (before behind : List Rule) (c : Cursor) :
    ruleAt? (before ++ behind) c = (ruleAt? before c).or (ruleAt? behind c) :=
  List.findSome?_append

/-- No rule is found at a position if the match of none starts there. -/
theorem ruleAt?_eq_none_iff {rs : List Rule} :
    ruleAt? rs c = none ↔ ∀ r ∈ rs, ¬ r.StartsAt c.text c.offset := by
  simp only [ruleAt?, List.findSome?_eq_none_iff, Option.map_eq_none_iff, Rule.startsAt_offset,
    Option.not_isSome_iff_eq_none]

/-- A rule that hides those behind it leaves no token at a position. -/
theorem tokenAt?_of_hides (he : e.TakesNothing) (h : Hides before e c.text c.offset) :
    tokenAt? (before ++ e :: behind) c = none := by
  rcases Option.isSome_iff_exists.1 (Rule.startsAt_offset.1 h.1) with ⟨d, hmatch⟩
  have hrule : ruleAt? (before ++ e :: behind) c = some (e, d) := by
    rw [ruleAt?_append, ruleAt?_eq_none_iff.2 h.2, Option.none_or, ruleAt?, List.findSome?_cons,
      hmatch]
    rfl
  rw [tokenAt?, hrule]
  simp only [he.offset_eq hmatch, Nat.lt_irrefl, if_false]

/-- A rule that does not hide those behind it makes no difference at a
position. -/
theorem tokenAt?_of_not_hides (h : ¬ Hides before e c.text c.offset) :
    tokenAt? (before ++ e :: behind) c = tokenAt? (before ++ behind) c := by
  have hrule : ruleAt? (before ++ e :: behind) c = ruleAt? (before ++ behind) c := by
    rw [ruleAt?_append, ruleAt?_append]
    cases hbefore : ruleAt? before c with
    | some found => rfl
    | none =>
        have hmatch : e.matcher.matchAt c = none := by
          rw [← Option.not_isSome_iff_eq_none, ← Rule.startsAt_offset]
          intro hstarts
          exact h ⟨hstarts, ruleAt?_eq_none_iff.1 hbefore⟩
        rw [Option.none_or, Option.none_or, ruleAt?, List.findSome?_cons, hmatch]
        rfl
  rw [tokenAt?, tokenAt?, hrule]

/-- The tokens from a position on do not begin before it. -/
theorem offset_le_of_mem_plainScan {rs : List Rule} {tok : Token}
    (h : tok ∈ plainScan rs c) : c.offset ≤ tok.start := by
  rcases exists_row_plainScan rs c with ⟨ps, -, htokens, -⟩
  rw [htokens] at h
  rcases Segment.exists_of_mem_tokensFrom h with ⟨front, w, rest, -, hstart, -⟩
  rw [hstart]
  exact Nat.le_add_right _ _

/-- From a position on, the scans with and without a rule that takes nothing find
the same tokens exactly if it hides none of those that are found without it. -/
theorem plainScan_eq_iff (he : e.TakesNothing) (c : Cursor) :
    plainScan (before ++ e :: behind) c = plainScan (before ++ behind) c ↔
      ∀ tok ∈ plainScan (before ++ behind) c, ¬ Hides before e c.text tok.start := by
  generalize hn : c.remaining = n
  induction n using Nat.strongRecOn generalizing c with
  | ind n ih =>
      rw [plainScan_eq (before ++ e :: behind), plainScan_eq (before ++ behind)]
      cases htoken : tokenAt? (before ++ behind) c with
      | some td =>
          rcases td with ⟨tok, d⟩
          have hstart := (tokenAt?_spec htoken).1
          by_cases hhides : Hides before e c.text c.offset
          · -- The token here is lost: all that the scan goes on to lies further on.
            rw [tokenAt?_of_hides he hhides]
            have hlost : ¬ ∀ t ∈ tok :: plainScan (before ++ behind) d,
                ¬ Hides before e c.text t.start := by
              intro h
              exact h tok List.mem_cons_self (hstart ▸ hhides)
            refine iff_of_false ?_ hlost
            intro heq
            cases hnext : c.next? with
            | none => simp [hnext] at heq
            | some xf =>
                rcases xf with ⟨x, f⟩
                simp only [hnext] at heq
                have hmem : tok ∈ plainScan (before ++ e :: behind) f :=
                  heq ▸ List.mem_cons_self
                have hle := offset_le_of_mem_plainScan hmem
                have hlt := Cursor.offset_lt_of_next? hnext
                omega
          · rcases tokenAt?_reaches htoken with ⟨hreach, hlt⟩
            have hrest := ih d.remaining (hn ▸ hreach.remaining_lt hlt) d rfl
            rw [hreach.text_eq] at hrest
            simp only [tokenAt?_of_not_hides hhides, htoken, List.cons.injEq, true_and,
              List.forall_mem_cons, hstart, hhides, not_false_eq_true, hrest]
      | none =>
          have hnone : tokenAt? (before ++ e :: behind) c = none := by
            by_cases hhides : Hides before e c.text c.offset
            · exact tokenAt?_of_hides he hhides
            · rw [tokenAt?_of_not_hides hhides, htoken]
          cases hnext : c.next? with
          | none => simp [hnone]
          | some xd =>
              rcases xd with ⟨x, d⟩
              have hless := Cursor.remaining_of_next? hnext
              have hrest := ih d.remaining (by omega) d rfl
              rw [Cursor.text_of_next? hnext] at hrest
              simp only [hnone, hrest]

/-- A rule that takes nothing, added at any time to rules that come earlier and
later, leaves the tokens of a text as they are exactly if each token that begins
where it matches begins where a rule matches that is tried before it: an earlier
one of at least its priority, or a later one of more. -/
theorem tokens_addAll_eq_iff {e : Rule} (he : e.TakesNothing) (earlier later : List Rule)
    (s : List Char) :
    (empty.addAll (earlier ++ e :: later)).tokens s =
        (empty.addAll (earlier ++ later)).tokens s ↔
      ∀ tok ∈ (empty.addAll (earlier ++ later)).tokens s, e.StartsAt s tok.start →
        ∃ r, (r ∈ earlier ∧ e.priority ≤ r.priority ∨ r ∈ later ∧ e.priority < r.priority) ∧
          r.StartsAt s tok.start := by
  rcases exists_split_addAll e earlier later with ⟨before, behind, hwith, hwithout, hmem⟩
  rw [tokens_eq_plainTokens, tokens_eq_plainTokens, plainTokens_eq_plainScan,
    plainTokens_eq_plainScan, hwith, hwithout, plainScan_eq_iff he]
  apply forall₂_congr
  intro tok _
  simp only [Hides, Cursor.text_ofText, not_and, not_forall, not_not, hmem, exists_prop]

/-- A rule that matches the empty piece at every position. -/
def nothing (priority : Int) : Rule where
  name := "nothing"
  source := ""
  matcher := Pattern.empty.matcher (by decide)
  priority := priority
  classify := Rule.classifyQuoted

/-- In the text `7`, a rule for the empty piece takes away the number if it is
tried before the rules of JSON, and makes no difference if it is tried after
them. -/
theorem tokens_addAll_eq_iff_seven :
    (nothing 1000).TakesNothing ∧ (nothing (-1000)).TakesNothing ∧
      (empty.addAll (Rule.json ++ [nothing 1000])).tokens ['7'] ≠
        (empty.addAll (Rule.json ++ [])).tokens ['7'] ∧
      (empty.addAll (Rule.json ++ [nothing (-1000)])).tokens ['7'] =
        (empty.addAll (Rule.json ++ [])).tokens ['7'] := by
  have hhigh : (nothing 1000).TakesNothing := Rule.takesNothing_empty rfl
  have hlow : (nothing (-1000)).TakesNothing := Rule.takesNothing_empty rfl
  have htokens : (empty.addAll (Rule.json ++ [])).tokens ['7'] = [⟨0, 1, .number⟩] := by
    decide +kernel
  have hpriority : ∀ r ∈ Rule.json, r.priority < 1000 := by decide
  refine ⟨hhigh, hlow, ?_, ?_⟩
  · rw [ne_eq, tokens_addAll_eq_iff hhigh Rule.json [], htokens]
    intro h
    rcases h ⟨0, 1, .number⟩ List.mem_cons_self ⟨0, rfl⟩ with ⟨r, ⟨hr, hle⟩ | ⟨hr, -⟩, -⟩
    · exact (Int.not_le.2 (hpriority r hr)) hle
    · exact (List.not_mem_nil hr).elim
  · rw [tokens_addAll_eq_iff hlow Rule.json [], htokens]
    intro tok htok _
    rw [List.mem_singleton] at htok
    subst htok
    have hnumber : Rule.number ∈ Rule.json := by simp [Rule.json]
    exact ⟨Rule.number, Or.inl ⟨hnumber, by decide⟩, 1, by decide +kernel⟩

/-- The rule for the empty piece, added with a priority above those of the rules of
JSON, takes away a number that is there without it. -/
theorem nothing_takes_number :
    (nothing 1000).TakesNothing ∧ (json.add (nothing 1000)).tokens ['7'] = [] ∧
      json.tokens ['7'] = [⟨0, 1, .number⟩] :=
  ⟨Rule.takesNothing_empty rfl, by decide +kernel, by decide +kernel⟩

end Tokenizer
end JsonTint
