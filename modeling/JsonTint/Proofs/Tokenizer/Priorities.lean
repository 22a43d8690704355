import JsonTint.Proofs.Json.Shapes
import JsonTint.Proofs.Json.Truncation
import JsonTint.Proofs.Tokenizer.EmptyMatches

/-!
# What priorities are for

Priorities decide between rules whose matches start at one offset.  If no two
rules of a tokenizer ever do so in a text, then neither their priorities nor the
order in which they were added makes a difference to its tokens.  The rules of
JSON are of this kind: their matches begin with different characters.

Main results:

- Theorem `ruleAt?_eq_of_perm`: at one position the order of such rules does not
  matter.
- Theorem `tokens_eq_of_sameRules`: nor does it for the tokens of a text.
- Theorem `apart_json`: no two rules of JSON match at one offset.
- Theorem `tokens_independent_of_priorities`: tokenizers with the same rules, and
  those with the rules of JSON.
-/

namespace JsonTint

namespace Rule

/-- The rule without regard to its priority. -/
def unranked (r : Rule) : Rule :=
  { r with priority := 0 }

/-- No match of the one rule starts at the offset of a match of the other. -/
def Apart (s : List Char) (a b : Rule) : Prop :=
  ∀ start, ¬ (a.StartsAt s start ∧ b.StartsAt s start)

/-- Which of two rules comes first does not matter to whether they are apart. -/
theorem Apart.symm {s : List Char} {a b : Rule} (h : a.Apart s b) : b.Apart s a := by
  intro start hboth
  exact h start hboth.symm

/-- At a position at most one of two such rules matches. -/
theorem Apart.matchAt_eq_none {a b : Rule} {c d : Cursor} (h : a.Apart c.text b)
    (hmatch : a.matcher.matchAt c = some d) : b.matcher.matchAt c = none := by
  rw [← Option.not_isSome_iff_eq_none, ← startsAt_offset]
  intro hb
  refine h c.offset ⟨startsAt_offset.2 ?_, hb⟩
  rw [hmatch]
  rfl

/-- A match starts at the offset of a position of the text. -/
theorem StartsAt.exists_cursor {r : Rule} {s : List Char} {start : Nat}
    (h : r.StartsAt s start) : ∃ c : Cursor, c.text = s ∧ c.offset = start := by
  rcases h with ⟨stop, hfound⟩
  rcases Matcher.findAt_eq_some_iff.1 hfound with ⟨c, d, hleft, hpair⟩
  exact ⟨c, hleft.text_eq, (Prod.mk.inj hpair).1⟩

end Rule

namespace Tokenizer

/-- Two rows hold the same rules, whatever their priorities and their order. -/
def SameRules (rs rs' : List Rule) : Prop :=
  (rs.map Rule.unranked).Perm (rs'.map Rule.unranked)

variable {rs rs' : List Rule} {c : Cursor}

/-! ## At one position -/

/-- At a position where at most one of some rules matches, their order does not
matter. -/
theorem ruleAt?_eq_of_perm (hperm : rs.Perm rs') (hapart : rs.Pairwise (Rule.Apart c.text)) :
    ruleAt? rs c = ruleAt? rs' c := by
  have hcons : ∀ (r : Rule) (rest : List Rule), ruleAt? (r :: rest) c =
      ((r.matcher.matchAt c).map fun stop => (r, stop)).or (ruleAt? rest c) := by
    intro r rest
    rw [ruleAt?, List.findSome?_cons]
    cases r.matcher.matchAt c <;> rfl
  induction hperm with
  | nil => rfl
  | cons r _ ih => rw [hcons, hcons, ih (List.pairwise_cons.1 hapart).2]
  | swap a b rest =>
      rw [hcons, hcons, hcons, hcons]
      cases hmatch : b.matcher.matchAt c with
      | none => rfl
      | some d =>
          have hab : b.Apart c.text a := (List.pairwise_cons.1 hapart).1 a List.mem_cons_self
          rw [hab.matchAt_eq_none hmatch]
          rfl
  | trans hfirst _ ihfirst ihsecond =>
      rw [ihfirst hapart, ihsecond (hfirst.pairwise hapart Rule.Apart.symm)]

/-- Which rule matches at a position does not depend on priorities. -/
theorem ruleAt?_map_unranked (rs : List Rule) (c : Cursor) :
    ruleAt? (rs.map Rule.unranked) c =
      (ruleAt? rs c).map fun found => (found.1.unranked, found.2) := by
  rw [ruleAt?, List.findSome?_map, ruleAt?, List.map_findSome?]
  congr 1
  funext r
  rw [Function.comp_apply, Function.comp_apply, Option.map_map]
  rfl

/-- The priorities of rules do not matter to the token at a position. -/
theorem tokenAt?_map_unranked (rs : List Rule) (c : Cursor) :
    tokenAt? (rs.map Rule.unranked) c = tokenAt? rs c := by
  rw [tokenAt?, tokenAt?, ruleAt?_map_unranked]
  cases ruleAt? rs c <;> rfl

/-- At a position of a text, the same rules give the same token. -/
theorem tokenAt?_eq_of_sameRules (hsame : SameRules rs rs')
    (hapart : rs.Pairwise (Rule.Apart c.text)) : tokenAt? rs c = tokenAt? rs' c := by
  have hunranked : (rs.map Rule.unranked).Pairwise (Rule.Apart c.text) :=
    List.pairwise_map.2 hapart
  rw [← tokenAt?_map_unranked rs, ← tokenAt?_map_unranked rs', tokenAt?, tokenAt?,
    ruleAt?_eq_of_perm hsame hunranked]

/-! ## In a text -/

/-- Scans that find the same token at each position of a text find the same
tokens. -/
theorem plainFrom_congr {s : List Char}
    (h : ∀ d : Cursor, d.text = s → tokenAt? rs d = tokenAt? rs' d) (fuel : Nat)
    (hc : c.text = s) : plainFrom rs fuel c = plainFrom rs' fuel c := by
  induction fuel generalizing c with
  | zero => rfl
  | succ fuel ih =>
      rw [plainFrom, plainFrom, ← h c hc]
      cases htoken : tokenAt? rs c with
      | some td =>
          have hreach := (tokenAt?_reaches htoken).1
          simp only [ih (hreach.text_eq.trans hc)]
      | none =>
          cases hnext : c.next? with
          | none => rfl
          | some xd => exact ih ((Cursor.text_of_next? hnext).trans hc)

/-- The tokens of a text do not depend on the priorities of rules that never
match at one offset of it, nor on the order in which the rules are tried. -/
theorem tokens_eq_of_sameRules {t t' : Tokenizer} {s : List Char}
    (hsame : SameRules t.rules t'.rules) (hapart : t.rules.Pairwise (Rule.Apart s)) :
    t.tokens s = t'.tokens s := by
  rw [tokens_eq_plainTokens, tokens_eq_plainTokens, plainTokens, plainTokens]
  refine plainFrom_congr (s := s) ?_ _ (Cursor.text_ofText s)
  rintro d rfl
  exact tokenAt?_eq_of_sameRules hsame hapart

/-- The rules of a tokenizer are the rules that were added. -/
theorem sameRules_addAll (hsame : SameRules rs rs') :
    SameRules (empty.addAll rs).rules (empty.addAll rs').rules := by
  have hadded : ∀ rs : List Rule, (empty.addAll rs).rules.Perm rs := fun rs => perm_addAll empty rs
  exact ((hadded rs).map _).trans (hsame.trans ((hadded rs').map _).symm)

/-! ## The rules of JSON -/

section Json

open Json

/-- A quoted text starts at a quote. -/
theorem head?_of_quoted_startsAt (h : Rule.quoted.StartsAt c.text c.offset) :
    c.after.head? = some '"' := by
  rw [Rule.startsAt_offset] at h
  change (Rule.quotedPattern.matchAt c).isSome at h
  rw [matchAt_quotedPattern, Option.isSome_map] at h
  refine Decidable.byContradiction fun hne => ?_
  rw [quoted?_eq_none hne] at h
  contradiction

/-- A keyword starts at one of three letters. -/
theorem head?_of_keyword_startsAt (h : Rule.keyword.StartsAt c.text c.offset) :
    ∃ x ∈ ['t', 'f', 'n'], c.after.head? = some x := by
  rw [Rule.startsAt_offset] at h
  change (Rule.keywordPattern.matchAt c).isSome at h
  rw [matchAt_keywordPattern, Option.isSome_map] at h
  cases hafter : c.after with
  | nil =>
      rw [hafter] at h
      contradiction
  | cons x s =>
      rw [hafter] at h
      refine ⟨x, Decidable.byContradiction fun hx => ?_, rfl⟩
      rw [keyword?_eq_none] at h
      · contradiction
      · intro hletter
        exact (hx (by simpa using hletter)).elim

/-- A number starts at a minus sign or a digit. -/
theorem head?_of_number_startsAt (h : Rule.number.StartsAt c.text c.offset) :
    ∃ x, (x = '-' ∨ x.isDigit = true) ∧ c.after.head? = some x := by
  rw [Rule.startsAt_offset] at h
  change (Rule.numberPattern.matchAt c).isSome at h
  rw [matchAt_numberPattern, Option.isSome_map] at h
  rcases Option.isSome_iff_exists.1 h with ⟨⟨n, cls⟩, hnumber⟩
  rcases exists_of_number? hnumber with ⟨x, s, hafter, hx⟩
  exact ⟨x, hx, by rw [hafter]; rfl⟩

/-- No two rules of JSON match at one offset: their matches begin with different
characters. -/
theorem apart_json (s : List Char) : Rule.json.Pairwise (Rule.Apart s) := by
  have hkeyword : ∀ x ∈ ['t', 'f', 'n'], x ≠ '"' ∧ x ≠ '-' ∧ x.isDigit = false := by
    simp only [List.forall_mem_cons, List.not_mem_nil, false_implies, implies_true, and_true]
    decide
  simp only [Rule.json, List.pairwise_cons, List.forall_mem_cons, List.not_mem_nil,
    false_implies, implies_true, and_true, List.Pairwise.nil]
  refine ⟨⟨?_, ?_⟩, ?_⟩
  · rintro start ⟨hquoted, hword⟩
    rcases hquoted.exists_cursor with ⟨c, rfl, rfl⟩
    rcases head?_of_keyword_startsAt hword with ⟨x, hx, hhead⟩
    rw [head?_of_quoted_startsAt hquoted] at hhead
    exact (hkeyword x hx).1 (Option.some.inj hhead).symm
  · rintro start ⟨hquoted, hnumber⟩
    rcases hquoted.exists_cursor with ⟨c, rfl, rfl⟩
    rcases head?_of_number_startsAt hnumber with ⟨x, hx, hhead⟩
    rw [head?_of_quoted_startsAt hquoted] at hhead
    cases hhead
    revert hx
    decide
  · rintro start ⟨hword, hnumber⟩
    rcases hword.exists_cursor with ⟨c, rfl, rfl⟩
    rcases head?_of_keyword_startsAt hword with ⟨x, hx, hhead⟩
    rcases head?_of_number_startsAt hnumber with ⟨y, hy, hhead'⟩
    rw [hhead, Option.some.injEq] at hhead'
    subst hhead'
    rcases hkeyword x hx with ⟨-, hminus, hdigit⟩
    rcases hy with rfl | hy
    · exact hminus rfl
    · rw [hdigit] at hy
      exact Bool.false_ne_true hy

end Json

/-- Two tokenizers that hold the same rules find the same tokens in a text,
whatever the priorities of the rules and the order in which they were added, if
no two of the rules match at one offset of the text.  No two rules of JSON ever
do, so all ways of ranking and adding them make the tokenizer for JSON. -/
theorem tokens_independent_of_priorities (s : List Char) :
    (∀ t t' : Tokenizer, SameRules t.rules t'.rules → t.rules.Pairwise (Rule.Apart s) →
      t.tokens s = t'.tokens s) ∧
    Rule.json.Pairwise (Rule.Apart s) ∧
    ∀ rs, SameRules rs Rule.json → (empty.addAll rs).tokens s = json.tokens s := by
  refine ⟨fun t t' => tokens_eq_of_sameRules, apart_json s, ?_⟩
  intro rs hsame
  exact (tokens_eq_of_sameRules (sameRules_addAll hsame.symm) (apart_json s)).symm

/-- The rules of JSON ranked in the opposite order, with the extreme priorities of
32 bits, or added in the opposite order without any ranking, find the same
tokens where a key, a keyword and a number touch. -/
theorem tokens_independent_of_priorities_reversed :
    json.tokens "\"a\" :true-1".toList = [⟨0, 5, .key⟩, ⟨5, 9, .boolean⟩, ⟨9, 11, .number⟩] ∧
      json.tokens "\"a\" :true-1".toList =
        (empty.addAll [{ Rule.quoted with priority := -2147483648 }, Rule.keyword,
          { Rule.number with priority := 2147483647 }]).tokens "\"a\" :true-1".toList ∧
      (empty.addAll [Rule.number.unranked, Rule.keyword.unranked,
        Rule.quoted.unranked]).tokens "\"a\" :true-1".toList =
        json.tokens "\"a\" :true-1".toList := by
  have hreverse : ((Rule.json.map Rule.unranked).reverse).Perm (Rule.json.map Rule.unranked) :=
    List.reverse_perm _
  refine ⟨by decide +kernel, ?_, ?_⟩
  · exact (tokens_independent_of_priorities _).1 json
      (empty.addAll [{ Rule.quoted with priority := -2147483648 }, Rule.keyword,
        { Rule.number with priority := 2147483647 }]) hreverse.symm
      (tokens_independent_of_priorities _).2.1
  · exact (tokens_independent_of_priorities _).2.2 [Rule.number.unranked, Rule.keyword.unranked,
      Rule.quoted.unranked] hreverse

end Tokenizer
end JsonTint
