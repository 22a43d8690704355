import JsonTint.Proofs.Segment.Merge
import JsonTint.Proofs.Tokenizer.LazyScan

/-!
# The tokens of a text tile it

Whatever its rules are, a tokenizer takes pieces of a text that lie one behind
the other.  So the text is the row of its segments, and the offsets of the
tokens are those of their segments.

Main results:

- Theorem `exists_row_plainScan`: the plain scan cuts the text ahead into
  tokens, none of them empty, and gaps.
- Theorems `join_segments` and `tokensFrom_segments`: the segments spell the
  text, and their tokens are the tokens of the text.
- Theorem `map_text_tokens`: each token has the class and the text of its
  segment.
-/

namespace JsonTint

open Segment

/-! ## Rows with their gaps joined -/

namespace Segment

/-- Joining gaps leaves the tokens. -/
theorem token_mem_merge {cls : TokenClass} {s g : List Char} {ps : List Segment} :
    token cls s ∈ merge g ps ↔ token cls s ∈ ps := by
  induction ps generalizing g with
  | nil => simp [merge]
  | cons p ps ih =>
      cases p with
      | gap w => simp [merge, ih]
      | token other w => simp [merge, ih]

/-- The tokens of a row lie one behind the other. -/
theorem pairwise_tokensFrom (last : Nat) (ps : List Segment) :
    (tokensFrom last ps).Pairwise fun a b => a.stop ≤ b.start := by
  induction ps generalizing last with
  | nil => exact .nil
  | cons p ps ih =>
      cases p with
      | gap w => exact ih _
      | token cls w =>
          refine .cons ?_ (ih _)
          intro b hb
          rcases exists_of_mem_tokensFrom hb with ⟨before, v, after, -, hstart, -⟩
          simp only [hstart]
          exact Nat.le_add_right _ _

end Segment

namespace Tokenizer

/-! ## The plain scan cuts the text -/

/-- A token begins at the position it is taken at and ends at the one behind it. -/
theorem tokenAt?_spec {rules : List Rule} {c d : Cursor} {t : Token}
    (h : tokenAt? rules c = some (t, d)) : t.start = c.offset ∧ t.stop = d.offset := by
  unfold tokenAt? at h
  split at h
  · contradiction
  · split at h
    · cases h
      exact ⟨rfl, rfl⟩
    · contradiction

/-- The plain scan cuts the text ahead into tokens, none of them empty, and
gaps. -/
theorem exists_row_plainScan (rules : List Rule) (c : Cursor) :
    ∃ ps, join ps = c.after ∧ plainScan rules c = tokensFrom c.offset ps ∧
      ∀ cls, token cls [] ∉ ps := by
  generalize hn : c.remaining = n
  induction n using Nat.strongRecOn generalizing c with
  | ind n ih =>
      rw [plainScan_eq]
      cases htoken : tokenAt? rules c with
      | some td =>
          rcases td with ⟨t, d⟩
          rcases tokenAt?_reaches htoken with ⟨hreach, hlt⟩
          rcases tokenAt?_spec htoken with ⟨hstart, hstop⟩
          have hless := hreach.remaining_lt hlt
          rcases ih d.remaining (by omega) d rfl with ⟨ps, hjoin, htokens, hne⟩
          have hoffset := hreach.offset_eq
          have hpiece : c.upTo d ≠ [] := by
            intro hnil
            rw [hnil, Text.byteLength_nil] at hoffset
            omega
          refine ⟨token t.cls (c.upTo d) :: ps, ?_, ?_, ?_⟩
          · rw [join_cons, hjoin]
            exact hreach.after_eq.symm
          · rw [tokensFrom, ← hoffset, ← htokens, ← hstart, ← hstop]
          · intro cls hmem
            rcases List.mem_cons.1 hmem with heq | hmem
            · exact hpiece (Segment.token.inj heq).2.symm
            · exact hne cls hmem
      | none =>
          cases hnext : c.next? with
          | none => exact ⟨[], by simp [Cursor.next?_eq_none.1 hnext], rfl, by simp⟩
          | some xd =>
              rcases xd with ⟨x, d⟩
              have hless := Cursor.remaining_of_next? hnext
              rcases ih d.remaining (by omega) d rfl with ⟨ps, hjoin, htokens, hne⟩
              refine ⟨gap [x] :: ps, ?_, ?_, ?_⟩
              · rw [join_cons, hjoin, (Cursor.next?_eq_some hnext).1]
                rfl
              · simp only [tokensFrom, Text.byteLength_cons, Text.byteLength_nil, Nat.add_zero,
                  htokens, Cursor.offset_of_next? hnext]
              · simpa using hne

/-! ## The segments of a text -/

/-- The segments of a text are a row of tokens, none of them empty, with the
gaps joined. -/
theorem exists_row_segments (t : Tokenizer) (s : List Char) :
    ∃ ps, t.segments s = merge [] ps ∧ join ps = s ∧ t.tokens s = tokensFrom 0 ps ∧
      ∀ cls, token cls [] ∉ ps := by
  rcases exists_row_plainScan t.rules (Cursor.ofText s) with ⟨ps, hjoin, htokens, hne⟩
  have hrow : t.tokens s = tokensFrom 0 ps := by
    rw [tokens_eq_plainTokens]
    exact htokens
  have hcut := cutFrom_tokensFrom 0 [] ps
  rw [List.nil_append, hjoin] at hcut
  refine ⟨ps, ?_, hjoin, hrow, hne⟩
  rw [segments, hrow]
  exact hcut

/-- The segments of a text spell it. -/
theorem join_segments (t : Tokenizer) (s : List Char) : join (t.segments s) = s := by
  rcases t.exists_row_segments s with ⟨ps, hmerge, hjoin, -, -⟩
  rw [hmerge, join_merge, List.nil_append, hjoin]

/-- The tokens of a text are those of its segments. -/
theorem tokensFrom_segments (t : Tokenizer) (s : List Char) :
    tokensFrom 0 (t.segments s) = t.tokens s := by
  rcases t.exists_row_segments s with ⟨ps, hmerge, -, htokens, -⟩
  rw [hmerge, tokensFrom_merge, htokens]
  rfl

/-- No token of a text is empty. -/
theorem token_nil_not_mem_segments (t : Tokenizer) (s : List Char) (cls : TokenClass) :
    token cls [] ∉ t.segments s := by
  rcases t.exists_row_segments s with ⟨ps, hmerge, -, -, hne⟩
  rw [hmerge, token_mem_merge]
  exact hne cls

/-- Each token of a text has the class and the text of its segment. -/
theorem map_text_tokens (t : Tokenizer) (s : List Char) :
    (t.tokens s).map (fun tok => (tok.cls, tok.text s)) =
      (t.segments s).filterMap asToken? := by
  have h := map_text_tokensFrom [] (t.segments s)
  rwa [join_segments, List.nil_append, Text.byteLength_nil, tokensFrom_segments] at h

/-- A token is a piece of its text that is not empty. -/
theorem exists_of_mem_tokens {t : Tokenizer} {s : List Char} {tok : Token}
    (h : tok ∈ t.tokens s) :
    ∃ before w after, s = before ++ (w ++ after) ∧ w ≠ [] ∧
      tok.start = Text.byteLength before ∧
      tok.stop = Text.byteLength before + Text.byteLength w := by
  rw [← tokensFrom_segments] at h
  rcases exists_of_mem_tokensFrom h with ⟨before, w, after, hrow, hstart, hstop⟩
  have hjoin := t.join_segments s
  rw [hrow, join_append, join_cons] at hjoin
  refine ⟨join before, w, join after, hjoin.symm, ?_, ?_, ?_⟩
  · rintro rfl
    apply t.token_nil_not_mem_segments s tok.cls
    rw [hrow]
    exact List.mem_append_right before List.mem_cons_self
  · rw [hstart, Nat.zero_add]
  · rw [hstop, Nat.zero_add, Text.byteLength_append]

end Tokenizer
end JsonTint
