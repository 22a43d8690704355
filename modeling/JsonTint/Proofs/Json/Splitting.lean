import JsonTint.Proofs.Json.Lex
import JsonTint.Proofs.Json.Truncation

/-!
# A JSON text cut behind a token

A text can be cut behind any of its tokens.  The front has the tokens that the
whole text has there, and the rest has the others, with offsets of its own.
What the front takes away from the rest is its last character, and this one is
missed in one case only: a keyword that touches a digit before it is no token,
and becomes one when the digit is gone.

Main results:

- Theorem `lex_cut`: the front is read as it was in the whole text.
- Theorem `lexeme?_neighbours`: what stands on the two sides of the cut.
- Theorems `lex_rest` and `tokensFrom_lex_keyword`: what the rest is read as.
- Theorem `json_tokens_split`: the tokens of the front and of the rest.
-/

namespace JsonTint

/-- The token at offsets that are counted from `n` bytes before. -/
def Token.shift (n : Nat) (t : Token) : Token where
  start := n + t.start
  stop := n + t.stop
  cls := t.cls

/-! ## Rows at other offsets -/

namespace Segment

open Text

/-- The tokens of the second of two rows begin where the text of the first one
ends. -/
theorem tokensFrom_append (last : Nat) (ps qs : List Segment) :
    tokensFrom last (ps ++ qs) =
      tokensFrom last ps ++ tokensFrom (last + byteLength (join ps)) qs := by
  induction ps generalizing last with
  | nil => rfl
  | cons p ps ih =>
      cases p with
      | gap w => simp [tokensFrom, ih, text, Nat.add_assoc]
      | token cls w => simp [tokensFrom, ih, text, Nat.add_assoc]

/-- A row that begins later has the same tokens at later offsets. -/
theorem tokensFrom_add (n last : Nat) (ps : List Segment) :
    tokensFrom (n + last) ps = (tokensFrom last ps).map (Token.shift n) := by
  induction ps generalizing last with
  | nil => rfl
  | cons p ps ih =>
      cases p with
      | gap w => simp [tokensFrom, ← ih, Nat.add_assoc]
      | token cls w => simp [tokensFrom, ← ih, Nat.add_assoc, Token.shift]

end Segment

namespace Json

open Segment Text

/-! ## The front -/

/-- No lexeme begins inside a keyword. -/
theorem isInertText_of_keyword {word : String} (hword : word ∈ keywords) {c : Char}
    {w : List Char} (h : word.toList = c :: w) : isInertText (some c) w = true := by
  simp only [keywords, List.mem_cons, List.not_mem_nil, or_false] at hword
  rcases hword with rfl | rfl | rfl
  all_goals
    rcases List.cons.inj h with ⟨rfl, rfl⟩
    decide

/-- A lexeme at the front is read if the cut lies behind it. -/
theorem lex_take_append {previous : Option Char} {s u v : List Char} {n : Nat}
    {cls : TokenClass} (h : lexeme? previous s = some (n, cls)) (hdrop : s.drop n = u ++ v) :
    lex previous (s.take n ++ u) = token cls (s.take n) :: lex (s.take n).getLast? u := by
  have hfront : s.take n ++ u = s.take (n + u.length) := by
    rw [List.take_add, hdrop, List.take_left]
  have hlexeme : lexeme? previous (s.take n ++ u) = some (n, cls) := by
    rw [hfront]
    exact lexeme?_take h (Nat.le_add_right n _)
  have hne : s.take n ++ u ≠ [] := by
    intro hnil
    rw [hnil] at hlexeme
    contradiction
  have hrest : (s.take n ++ u).drop n = u := by
    rw [hfront, List.drop_take, hdrop, Nat.add_sub_cancel_left, List.take_left]
  have htoken : (s.take n ++ u).take n = s.take n := by
    rw [hfront, List.take_take, Nat.min_eq_left (Nat.le_add_right n _)]
  rw [lex_of_lexeme? hne hlexeme, hrest, htoken]

/-- A character at which no lexeme begins is stepped over if the cut lies behind
a lexeme that follows. -/
theorem lex_cons_of_lexeme?_eq_none {previous : Option Char} {c : Char} {u v w : List Char}
    {before : List Segment} {cls : TokenClass} (h : lexeme? previous (c :: (u ++ v)) = none)
    (hu : lex (some c) u = before ++ [token cls w]) :
    lex previous (c :: u) = gap [c] :: lex (some c) u := by
  apply lex_of_lexeme?_eq_none
  have htake : (c :: (u ++ v)).take (u.length + 1) = c :: u := by
    rw [List.take_succ_cons, List.take_left]
  rw [← htake]
  apply lexeme?_take_eq_none h
  -- Of a keyword that the cut lays bare, no later character begins a lexeme.
  intro word hword heq
  rw [htake] at heq
  rw [lex_of_isInertText (isInertText_of_keyword hword heq.symm)] at hu
  have hmem : token cls w ∈ u.map fun c => gap [c] := by
    rw [hu]
    exact List.mem_append_right before List.mem_cons_self
  rcases List.mem_map.1 hmem with ⟨c, -, hc⟩
  cases hc

/-- Up to the end of a lexeme, a text is read as it is without what stands
behind it. -/
theorem lex_cut {previous : Option Char} {s w : List Char} {before after : List Segment}
    {cls : TokenClass} (h : lex previous s = before ++ token cls w :: after) :
    lex previous (join before ++ w) = before ++ [token cls w] ∧
      ∃ neighbour n v, s = join before ++ (w ++ v) ∧ lexeme? neighbour (w ++ v) = some (n, cls) ∧
        w = (w ++ v).take n ∧ after = lex w.getLast? v := by
  induction before generalizing previous s with
  | nil =>
      rcases lex_eq_cons h with ⟨n, cls', hlexeme, hp, hps⟩ | ⟨c, t, -, -, hp, -⟩
      · cases hp
        have hsplit : s.take n ++ s.drop n = s := List.take_append_drop n s
        constructor
        · have hfront := lex_take_append hlexeme (u := []) (v := s.drop n) rfl
          rwa [List.append_nil, lex_nil] at hfront
        · refine ⟨previous, n, s.drop n, hsplit.symm, ?_, ?_, hps⟩
          · rwa [hsplit]
          · rw [hsplit]
      · cases hp
  | cons p before ih =>
      rcases lex_eq_cons h with ⟨n, cls', hlexeme, rfl, hps⟩ | ⟨c, t, rfl, hlexeme, rfl, hps⟩
      · rcases ih hps.symm with ⟨hfront, neighbour, m, v, hs, hrest⟩
        have hdrop : s.drop n = (join before ++ w) ++ v := by rw [hs, List.append_assoc]
        refine ⟨?_, neighbour, m, v, ?_, hrest⟩
        · rw [join_cons, text, List.append_assoc, lex_take_append hlexeme hdrop, hfront]
          rfl
        · rw [join_cons, text, List.append_assoc, ← hs, List.take_append_drop]
      · rcases ih hps.symm with ⟨hfront, neighbour, m, v, rfl, hrest⟩
        refine ⟨?_, neighbour, m, v, rfl, hrest⟩
        rw [← List.append_assoc] at hlexeme
        have hgap := lex_cons_of_lexeme?_eq_none hlexeme hfront
        rw [hfront] at hgap
        exact hgap

/-! ## The two sides of the cut -/

/-- On the two sides of the end of a lexeme are no two word characters, unless
the lexeme is a number that ends with a digit. -/
theorem lexeme?_neighbours {previous : Option Char} {w v : List Char} {n : Nat}
    {cls : TokenClass} (h : lexeme? previous (w ++ v) = some (n, cls))
    (hw : w = (w ++ v).take n) :
    w.getLast?.any Assertion.isWordChar = false ∨ v.head?.any Assertion.isWordChar = false ∨
      cls = .number ∧ w.getLast?.any Char.isDigit = true := by
  rcases lexeme?_eq_some_iff.1 h with hquoted | ⟨-, hkeyword | ⟨-, hnumber⟩⟩
  · rcases exists_of_quoted? hquoted with ⟨u, last, htake, hlast⟩
    left
    rw [hw, htake, List.getLast?_concat]
    rcases hlast with ⟨rfl, -⟩ | ⟨rfl, -⟩
    · decide
    · decide
  · rcases exists_of_keyword? hkeyword with ⟨word, -, hahead, rfl, -⟩
    rcases isWordAhead_iff.1 hahead with ⟨rest, hsplit, -, hrest⟩
    have hword : w = word.toList := by
      rw [hw, hsplit, List.take_left' (String.length_toList ..)]
    rw [hword, List.append_cancel_left_eq] at hsplit
    rw [hsplit]
    exact Or.inr (Or.inl hrest)
  · have hlast := getLast?_of_number? hnumber
    rw [← hw] at hlast
    cases hend : w.getLast? with
    | none => exact Or.inl rfl
    | some c =>
        rw [hend] at hlast
        have hc : c.isDigit = true ∨ c = '.' := by simpa [endsNumber] using hlast
        rcases hc with hdigit | rfl
        · exact Or.inr (Or.inr ⟨(number?_spec hnumber).2, hdigit⟩)
        · exact Or.inl (by decide)

/-! ## The rest -/

/-- A text is read as at its beginning if that uncovers no keyword. -/
theorem lex_of_not_uncovered {previous : Option Char} {s : List Char}
    (h : ∀ word ∈ keywords, isWordAhead word none s = true →
      previous.any Assertion.isWordChar = false) :
    lex previous s = lex none s := by
  have hahead : ∀ word ∈ keywords, isWordAhead word previous s = isWordAhead word none s := by
    intro word hword
    rw [Bool.eq_iff_iff]
    constructor
    · intro hahead
      rcases isWordAhead_iff.1 hahead with ⟨rest, hs, -, hrest⟩
      exact isWordAhead_iff.2 ⟨rest, hs, rfl, hrest⟩
    · intro hahead
      rcases isWordAhead_iff.1 hahead with ⟨rest, hs, -, hrest⟩
      exact isWordAhead_iff.2 ⟨rest, hs, h word hword hahead, hrest⟩
  have hkeyword : keyword? previous s = keyword? none s := by
    rw [keyword?, keyword?, hahead "true" (by decide), hahead "false" (by decide),
      hahead "null" (by decide)]
  cases s with
  | nil => rw [lex_nil, lex_nil]
  | cons c s =>
      have hlexeme : lexeme? previous (c :: s) = lexeme? none (c :: s) := by
        rw [lexeme?, lexeme?, hkeyword]
      rw [lex_cons, lex_cons, hlexeme]

theorem any_isWordChar_of_isDigit {o : Option Char} (h : o.any Char.isDigit = true) :
    o.any Assertion.isWordChar = true := by
  cases o with
  | none => contradiction
  | some c =>
      have hdigit : c.isDigit = true := h
      simp [Assertion.isWordChar, Char.isAlphanum, hdigit]

/-- A keyword is not empty, and its letters are word characters. -/
theorem isWordChar_of_mem_keyword :
    ∀ word ∈ keywords, word.toList ≠ [] ∧ word.toList.all Assertion.isWordChar = true := by
  decide

/-- At the beginning of a text a keyword is a token. -/
theorem lex_keyword {word : String} (hword : word ∈ keywords) {rest : List Char}
    (hrest : rest.head?.any Assertion.isWordChar = false) :
    lex none (word.toList ++ rest) =
      token (Rule.classifyKeyword word.toList) word.toList :: lex word.toList.getLast? rest := by
  have hne : word.toList ++ rest ≠ [] := by
    simp [(isWordChar_of_mem_keyword word hword).1]
  rw [lex_of_lexeme? hne (lexeme?_keyword hword rfl hrest),
    List.take_left' (String.length_toList ..), List.drop_left' (String.length_toList ..)]

/-- Behind a word character a keyword is no token. -/
theorem tokensFrom_lex_keyword {previous : Option Char}
    (hprevious : previous.any Assertion.isWordChar = true) {word : String}
    (hword : word ∈ keywords) (last : Nat) (rest : List Char) :
    tokensFrom last (lex previous (word.toList ++ rest)) =
      tokensFrom (last + byteLength word.toList) (lex word.toList.getLast? rest) := by
  have hinert : isInertText previous word.toList = true ∧
      word.toList.getLast?.or previous = word.toList.getLast? := by
    simp only [keywords, List.mem_cons, List.not_mem_nil, or_false] at hword
    rcases hword with rfl | rfl | rfl
    all_goals simp [isInertText, isInert, hprevious]
  have hmerge := merge_lex_append hinert.1 [] rest
  rw [hinert.2, List.nil_append] at hmerge
  calc
    tokensFrom last (lex previous (word.toList ++ rest)) =
        tokensFrom last (merge [] (lex previous (word.toList ++ rest))) := by
      rw [tokensFrom_merge, byteLength_nil, Nat.add_zero]
    _ = tokensFrom (last + byteLength word.toList) (lex word.toList.getLast? rest) := by
      rw [hmerge, tokensFrom_merge]

/-! ## The tokens of the two parts -/

/-- Behind the token `t` stands a keyword that is no token, since `t` is a number
and its last digit touches the keyword. -/
structure CoversKeyword (s : List Char) (t : Token) (word : String) : Prop where
  mem : word ∈ keywords
  isNumber : t.cls = .number
  endsInDigit : (t.text s).getLast?.any Char.isDigit = true
  isAhead : word.toList <+: dropBytes t.stop s
  endsWord : ((dropBytes t.stop s).drop word.length).head?.any Assertion.isWordChar = false

variable {s : List Char} {t : Token}

/-- The text behind the token `t` is read behind the last character of the token,
which is a lexeme there. -/
theorem tokens_cut (ht : t ∈ Tokenizer.json.tokens s) :
    byteLength (takeBytes t.stop s) = t.stop ∧
      Tokenizer.json.tokens s = Tokenizer.json.tokens (takeBytes t.stop s) ++
        tokensFrom t.stop (lex (t.text s).getLast? (dropBytes t.stop s)) ∧
      ∃ neighbour n, lexeme? neighbour (t.text s ++ dropBytes t.stop s) = some (n, t.cls) ∧
        t.text s = (t.text s ++ dropBytes t.stop s).take n := by
  rw [tokens_json_eq_tokensFrom] at ht
  rcases exists_of_mem_tokensFrom ht with ⟨before, w, after, hsplit, hstart, hstop⟩
  rcases lex_cut hsplit with ⟨hfront, neighbour, n, v, hs, hlexeme, hw, rfl⟩
  rw [Nat.zero_add] at hstart hstop
  have hs' : s = (join before ++ w) ++ v := by rw [hs, List.append_assoc]
  have htake : takeBytes t.stop s = join before ++ w := by
    rw [hs', hstop, takeBytes_append]
  have hdrop : dropBytes t.stop s = v := by
    rw [hs', hstop, dropBytes_append]
  have htext : t.text s = w := by
    rw [Token.text, hs, hstart, hstop, byteLength_append, slice_append]
  rw [htext, hdrop, htake]
  refine ⟨hstop.symm, ?_, neighbour, n, hlexeme, hw⟩
  rw [tokens_json_eq_tokensFrom, tokens_json_eq_tokensFrom, hfront, hsplit, List.append_cons,
    tokensFrom_append, join_append, join_cons, join_nil, List.append_nil, text, Nat.zero_add, hstop]

/-- The text behind a token is read as at its beginning if the token covers no
keyword. -/
theorem lex_rest (ht : t ∈ Tokenizer.json.tokens s) (h : ∀ word, ¬CoversKeyword s t word) :
    lex (t.text s).getLast? (dropBytes t.stop s) = lex none (dropBytes t.stop s) := by
  rcases tokens_cut ht with ⟨-, -, neighbour, n, hlexeme, htext⟩
  apply lex_of_not_uncovered
  intro word hword hahead
  rcases isWordAhead_iff.1 hahead with ⟨rest, hdrop, -, hrest⟩
  rcases lexeme?_neighbours hlexeme htext with hleft | hright | ⟨hnumber, hdigit⟩
  · exact hleft
  · rcases isWordChar_of_mem_keyword word hword with ⟨hne, hletters⟩
    have htouches := touchesWord_append hne (List.all_eq_true.1 hletters) rest
    rw [hdrop] at hright
    exact (Bool.false_ne_true (hright.symm.trans htouches)).elim
  · refine (h word ⟨hword, hnumber, hdigit, ?_, ?_⟩).elim
    · rw [hdrop]
      exact List.prefix_append ..
    · rwa [hdrop, List.drop_left' (String.length_toList ..)]

/-- A text can be cut behind any of its tokens.  The tokens of the front and,
with their offsets moved, those of the rest are the tokens of the text, unless
the token covers a keyword; this one is the first token of the rest then, and
the only one that the text does not have. -/
theorem json_tokens_split (ht : t ∈ Tokenizer.json.tokens s) :
    byteLength (takeBytes t.stop s) = t.stop ∧
      ((∀ word, ¬CoversKeyword s t word) →
        Tokenizer.json.tokens s = Tokenizer.json.tokens (takeBytes t.stop s) ++
          (Tokenizer.json.tokens (dropBytes t.stop s)).map (Token.shift t.stop)) ∧
      ∀ word, CoversKeyword s t word →
        ∃ later, Tokenizer.json.tokens (dropBytes t.stop s) =
            ⟨0, byteLength word.toList, Rule.classifyKeyword word.toList⟩ :: later ∧
          Tokenizer.json.tokens s = Tokenizer.json.tokens (takeBytes t.stop s) ++
            later.map (Token.shift t.stop) := by
  rcases tokens_cut ht with ⟨hlength, htokens, -⟩
  refine ⟨hlength, ?_, ?_⟩
  · intro hnone
    rw [htokens, lex_rest ht hnone, tokens_json_eq_tokensFrom (dropBytes t.stop s),
      ← tokensFrom_add, Nat.add_zero]
  · rintro word ⟨hword, -, hdigit, ⟨rest, hdrop⟩, hend⟩
    rw [← hdrop, List.drop_left' (String.length_toList ..)] at hend
    have hprevious := any_isWordChar_of_isDigit hdigit
    refine ⟨tokensFrom (byteLength word.toList) (lex word.toList.getLast? rest), ?_, ?_⟩
    · rw [← hdrop, tokens_json_eq_tokensFrom, lex_keyword hword hend, tokensFrom, Nat.zero_add]
    · rw [htokens, ← hdrop, tokensFrom_lex_keyword hprevious hword, tokensFrom_add]

/-- In `1true,2` the number covers the keyword, which is the first token behind the
cut.  In `1.true,2` the number ends with a point, and the keyword is a token
with and without it. -/
theorem json_tokens_split_touching :
    (CoversKeyword "1true,2".toList ⟨0, 1, .number⟩ "true" ∧
      Tokenizer.json.tokens "1true,2".toList = [⟨0, 1, .number⟩, ⟨6, 7, .number⟩] ∧
      ∃ later, Tokenizer.json.tokens "true,2".toList = ⟨0, 4, .boolean⟩ :: later ∧
        Tokenizer.json.tokens "1true,2".toList =
          Tokenizer.json.tokens "1".toList ++ later.map (Token.shift 1)) ∧
    (Tokenizer.json.tokens "1.true,2".toList =
        [⟨0, 2, .number⟩, ⟨2, 6, .boolean⟩, ⟨7, 8, .number⟩] ∧
      Tokenizer.json.tokens "1.true,2".toList =
        Tokenizer.json.tokens "1.".toList ++
          (Tokenizer.json.tokens "true,2".toList).map (Token.shift 2)) := by
  have hdigit : Tokenizer.json.tokens "1true,2".toList = [⟨0, 1, .number⟩, ⟨6, 7, .number⟩] := by
    decide +kernel
  have hpoint : Tokenizer.json.tokens "1.true,2".toList =
      [⟨0, 2, .number⟩, ⟨2, 6, .boolean⟩, ⟨7, 8, .number⟩] := by
    decide +kernel
  have hcovers : CoversKeyword "1true,2".toList ⟨0, 1, .number⟩ "true" :=
    ⟨by decide, rfl, by decide, by decide, by decide⟩
  have hmem : (⟨0, 1, .number⟩ : Token) ∈ Tokenizer.json.tokens "1true,2".toList := by
    rw [hdigit]
    exact List.mem_cons_self
  have hmem' : (⟨0, 2, .number⟩ : Token) ∈ Tokenizer.json.tokens "1.true,2".toList := by
    rw [hpoint]
    exact List.mem_cons_self
  refine ⟨⟨hcovers, hdigit, (json_tokens_split hmem).2.2 "true" hcovers⟩, hpoint,
    (json_tokens_split hmem').2.1 ?_⟩
  intro word h
  exact absurd h.endsInDigit (by decide)

end Json
end JsonTint
