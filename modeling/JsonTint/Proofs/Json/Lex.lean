import JsonTint.Proofs.Json.Scan
import JsonTint.Proofs.Tokenizer.Tiling

/-!
# A JSON text as a row of lexemes and gaps

The scan for JSON lexemes without its offsets: each lexeme is a token, and each
character that no lexeme takes is a gap of its own.

Main results:

- Theorem `lex_cons` and its converse `lex_eq_cons`: the row takes the lexeme at
  the front, or a character.
- Theorem `merge_lex_append`: a text in which no lexeme begins is one gap.
- Theorem `tokens_json_eq_tokensFrom`: its tokens are the tokens of the text.
- Theorem `segments_json`: the segments of the text are the row with its gaps
  joined.
-/

namespace JsonTint
namespace Json

open Segment

/-- The text ahead, behind the character `previous`, as lexemes and gaps. -/
def lex (previous : Option Char) (s : List Char) : List Segment :=
  match s with
  | [] => []
  | c :: s =>
    match h : lexeme? previous (c :: s) with
    | some (n, cls) =>
      let lexeme := (c :: s).take n
      have : 0 < n := lexeme?_pos h
      token cls lexeme :: lex lexeme.getLast? ((c :: s).drop n)
    | none => gap [c] :: lex (some c) s
termination_by s.length
decreasing_by
  · rw [List.length_drop, List.length_cons]
    omega
  · exact Nat.lt_succ_self _

@[simp]
theorem lex_nil (previous : Option Char) : lex previous [] = [] := by
  rw [lex]

/-- The row takes the lexeme at the front, or steps over a character. -/
theorem lex_cons (previous : Option Char) (c : Char) (s : List Char) :
    lex previous (c :: s) =
      match lexeme? previous (c :: s) with
      | some (n, cls) =>
        token cls ((c :: s).take n) ::
          lex ((c :: s).take n).getLast? ((c :: s).drop n)
      | none => gap [c] :: lex (some c) s := by
  rw [lex]
  split <;> rename_i h <;> simp [h]

/-- A lexeme at the front is the first token of the row. -/
theorem lex_of_lexeme? {previous : Option Char} {s : List Char} {n : Nat} {cls : TokenClass}
    (hs : s ≠ []) (h : lexeme? previous s = some (n, cls)) :
    lex previous s = token cls (s.take n) :: lex (s.take n).getLast? (s.drop n) := by
  cases s with
  | nil => contradiction
  | cons c s => rw [lex_cons, h]

/-- A character at which no lexeme begins is a gap. -/
theorem lex_of_lexeme?_eq_none {previous : Option Char} {c : Char} {s : List Char}
    (h : lexeme? previous (c :: s) = none) :
    lex previous (c :: s) = gap [c] :: lex (some c) s := by
  rw [lex_cons, h]

/-- What a row begins with was taken from the front of the text. -/
theorem lex_eq_cons {previous : Option Char} {s : List Char} {p : Segment} {ps : List Segment}
    (h : lex previous s = p :: ps) :
    (∃ n cls, lexeme? previous s = some (n, cls) ∧ p = token cls (s.take n) ∧
      ps = lex (s.take n).getLast? (s.drop n)) ∨
    (∃ c t, s = c :: t ∧ lexeme? previous s = none ∧ p = gap [c] ∧ ps = lex (some c) t) := by
  cases s with
  | nil =>
      rw [lex_nil] at h
      contradiction
  | cons c t =>
      cases hlexeme : lexeme? previous (c :: t) with
      | some found =>
          rw [lex_of_lexeme? (List.cons_ne_nil c t) hlexeme, List.cons.injEq] at h
          exact Or.inl ⟨_, _, rfl, h.1.symm, h.2.symm⟩
      | none =>
          rw [lex_of_lexeme?_eq_none hlexeme, List.cons.injEq] at h
          exact Or.inr ⟨c, t, rfl, rfl, h.1.symm, h.2.symm⟩

/-! ## Texts without lexemes -/

/-- Whether no lexeme begins with the character `c` behind the character
`previous`. -/
def isInert (previous : Option Char) (c : Char) : Bool :=
  c != '"' && c != '-' && !c.isDigit &&
    (previous.any Assertion.isWordChar || !(c == 't' || c == 'f' || c == 'n'))

/-- Whether no lexeme begins in a text behind the character `previous`. -/
def isInertText : Option Char → List Char → Bool
  | _, [] => true
  | previous, c :: s => isInert previous c && isInertText (some c) s

/-- Where no lexeme can begin, none is found. -/
theorem lexeme?_of_isInert {previous : Option Char} {c : Char} {s : List Char}
    (h : isInert previous c = true) : lexeme? previous (c :: s) = none := by
  simp only [isInert, Bool.and_eq_true, bne_iff_ne, Bool.not_eq_true', Bool.or_eq_true] at h
  rcases h with ⟨⟨⟨hquote, hminus⟩, hdigit⟩, hword⟩
  apply lexeme?_eq_none hquote hminus hdigit
  intro hc
  rcases hword with hword | hletter
  · exact hword
  · simp only [Bool.or_eq_false_iff, beq_eq_false_iff_ne] at hletter
    rcases hc with rfl | rfl | rfl
    · exact (hletter.1.1 rfl).elim
    · exact (hletter.1.2 rfl).elim
    · exact (hletter.2 rfl).elim

/-- A text in which no lexeme begins is a row of gaps. -/
theorem lex_of_isInertText {previous : Option Char} {w : List Char}
    (h : isInertText previous w = true) : lex previous w = w.map fun c => gap [c] := by
  induction w generalizing previous with
  | nil => exact lex_nil previous
  | cons c w ih =>
      rw [isInertText, Bool.and_eq_true] at h
      rw [lex_of_lexeme?_eq_none (lexeme?_of_isInert h.1), ih h.2, List.map_cons]

/-- A text in which no lexeme begins is joined to the gap before it. -/
theorem merge_lex_append {previous : Option Char} {w : List Char}
    (h : isInertText previous w = true) (g s : List Char) :
    merge g (lex previous (w ++ s)) = merge (g ++ w) (lex (w.getLast?.or previous) s) := by
  induction w generalizing previous g with
  | nil => simp
  | cons c w ih =>
      rw [isInertText, Bool.and_eq_true] at h
      have hlast : (c :: w).getLast?.or previous = w.getLast?.or (some c) := by
        cases w <;> simp [List.getLast?_cons]
      rw [List.cons_append, lex_of_lexeme?_eq_none (lexeme?_of_isInert h.1), merge, ih h.2, hlast,
        List.append_assoc, List.singleton_append]

/-! ## The row and the scan -/

/-- The lexemes and gaps of a text make up the text. -/
theorem join_lex (previous : Option Char) (s : List Char) : join (lex previous s) = s := by
  fun_induction lex previous s with
  | case1 => rfl
  | case2 previous c s n cls h lexeme hpos ih =>
      rw [join_cons, ih]
      exact List.take_append_drop n (c :: s)
  | case3 previous c s h ih =>
      rw [join_cons, ih]
      rfl

/-- The tokens that the scanner finds are the lexemes of the row. -/
theorem scanAhead_eq_tokensFrom (previous : Option Char) (offset : Nat) (s : List Char) :
    scanAhead previous offset s = tokensFrom offset (lex previous s) := by
  fun_induction lex previous s generalizing offset with
  | case1 => rfl
  | case2 previous c s n cls h lexeme hpos ih =>
      rw [scanAhead_cons, h]
      simp only [tokensFrom, ← ih]
      rfl
  | case3 previous c s h ih =>
      rw [scanAhead_cons, h]
      simp [tokensFrom, ih]

/-- The tokens of a text are those of its lexemes. -/
theorem tokens_json_eq_tokensFrom (s : List Char) :
    Tokenizer.json.tokens s = tokensFrom 0 (lex none s) := by
  rw [tokens_json, scan_eq_scanAhead, scanAhead_eq_tokensFrom]

/-- The segments of a text are its lexemes and the joined gaps around them. -/
theorem segments_json (s : List Char) :
    Tokenizer.json.segments s = merge [] (lex none s) := by
  have h := cutFrom_tokensFrom 0 [] (lex none s)
  rw [List.nil_append, join_lex] at h
  rw [Tokenizer.segments, tokens_json_eq_tokensFrom]
  exact h

/-- The tokens of a text are those of its segments. -/
theorem tokens_json_eq_tokensFrom_segments (s : List Char) :
    Tokenizer.json.tokens s = tokensFrom 0 (Tokenizer.json.segments s) :=
  (Tokenizer.json.tokensFrom_segments s).symm

/-- Each token of a text has the class and the text of its segment. -/
theorem map_text_tokens_json (s : List Char) :
    (Tokenizer.json.tokens s).map (fun t => (t.cls, t.text s)) =
      (Tokenizer.json.segments s).filterMap asToken? :=
  Tokenizer.json.map_text_tokens s

end Json
end JsonTint
