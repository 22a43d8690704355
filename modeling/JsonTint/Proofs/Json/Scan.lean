import JsonTint.Proofs.Json.Shapes
import JsonTint.Proofs.Tokenizer.LazyScan

/-!
# The JSON tokenizer is a scanner for JSON lexemes

The three rules of JSON, tried by their priority through patterns and with a
memory of earlier matches, find exactly the tokens of the scan that looks for a
quoted text, a keyword and a number at one position after the other.

Main results:

- Theorem `scanAhead_cons`: the scan as a recursion over the text ahead.
- Theorem `tokenAt?_json`: the rules find the lexeme at the front of the text.
- Theorem `plainScan_json`: from every position the two scans agree.
- Theorem `json_stream_eq_scan`: the calls for tokens give the tokens of the
  scan.
-/

namespace JsonTint
namespace Json

open Rule

/-! ## The scan over the text ahead -/

/-- The tokens of the text ahead. -/
def scanAhead (previous : Option Char) (offset : Nat) (s : List Char) : List Token :=
  scanFrom s.length previous offset s

/-- The scanner starts at the front of the text, with nothing before it. -/
theorem scan_eq_scanAhead (s : List Char) : scan s = scanAhead none 0 s :=
  rfl

/-- One more step than there are characters changes nothing. -/
theorem scanFrom_succ {fuel : Nat} {s : List Char} (hfuel : s.length ≤ fuel)
    (previous : Option Char) (offset : Nat) :
    scanFrom (fuel + 1) previous offset s = scanFrom fuel previous offset s := by
  induction fuel generalizing previous offset s with
  | zero =>
      rw [List.eq_nil_of_length_eq_zero (Nat.le_zero.1 hfuel)]
      rfl
  | succ fuel ih =>
      cases s with
      | nil => rfl
      | cons c s =>
          rw [scanFrom, scanFrom]
          have hs : s.length ≤ fuel := Nat.le_of_succ_le_succ hfuel
          cases hlexeme : lexeme? previous (c :: s) with
          | none => exact ih hs _ _
          | some found =>
              rcases found with ⟨n, cls⟩
              have hpos := lexeme?_pos hlexeme
              have hdrop : ((c :: s).drop n).length ≤ fuel := by
                rw [List.length_drop, List.length_cons]
                omega
              simp only [ih hdrop]

/-- Any number of steps will do that the text is not longer than. -/
theorem scanFrom_of_length_le {fuel : Nat} {s : List Char} (hfuel : s.length ≤ fuel)
    (previous : Option Char) (offset : Nat) :
    scanFrom fuel previous offset s = scanAhead previous offset s := by
  induction hfuel with
  | refl => rfl
  | step hle ih => rw [scanFrom_succ hle, ih]

@[simp]
theorem scanAhead_nil (previous : Option Char) (offset : Nat) :
    scanAhead previous offset [] = [] :=
  rfl

/-- The scan takes the lexeme at the front, or steps over a character. -/
theorem scanAhead_cons (previous : Option Char) (offset : Nat) (c : Char) (s : List Char) :
    scanAhead previous offset (c :: s) =
      match lexeme? previous (c :: s) with
      | some (n, cls) =>
        let lexeme := (c :: s).take n
        ⟨offset, offset + Text.byteLength lexeme, cls⟩ ::
          scanAhead lexeme.getLast? (offset + Text.byteLength lexeme) ((c :: s).drop n)
      | none => scanAhead (some c) (offset + c.utf8Size) s := by
  rw [scanAhead, List.length_cons, scanFrom]
  cases hlexeme : lexeme? previous (c :: s) with
  | none => rfl
  | some found =>
      rcases found with ⟨n, cls⟩
      have hpos := lexeme?_pos hlexeme
      have hdrop : ((c :: s).drop n).length ≤ s.length := by
        rw [List.length_drop, List.length_cons]
        omega
      simp only [scanFrom_of_length_le hdrop]

/-! ## The rules find the lexeme at the front -/

/-- Each rule of JSON finds the lexemes of its kind. -/
theorem ruleAt?_json (c : Cursor) :
    Tokenizer.ruleAt? Rule.json c =
      ((quoted? c.after).map fun found => (quoted, c.skip found.1)).or
        (((keyword? c.before.head? c.after).map fun found => (keyword, c.skip found.1)).or
          ((number? c.after).map fun found => (number, c.skip found.1))) := by
  simp only [Tokenizer.ruleAt?, Rule.json, List.findSome?_cons, List.findSome?_nil, quoted,
    keyword, number, Pattern.matchAt_matcher, matchAt_quotedPattern, matchAt_keywordPattern,
    matchAt_numberPattern, Option.map_map, Function.comp_def]
  cases quoted? c.after <;> cases keyword? c.before.head? c.after <;>
    cases number? c.after <;> rfl

/-- A rule whose match is as long as a lexeme gives the token of the lexeme. -/
theorem tokenAt?_of_ruleAt? {rules : List Rule} {c : Cursor} {r : Rule} {n : Nat}
    (hrule : Tokenizer.ruleAt? rules c = some (r, c.skip n)) (hpos : 0 < n)
    (hafter : c.after ≠ []) :
    Tokenizer.tokenAt? rules c =
      some (⟨c.offset, (c.skip n).offset, r.classify (c.after.take n)⟩, c.skip n) := by
  have hforward : c.offset < (c.skip n).offset := by
    rw [Cursor.offset_skip]
    have hlength := Text.length_le_byteLength (c.after.take n)
    have := List.length_pos_of_ne_nil hafter
    rw [List.length_take] at hlength
    omega
  rw [Tokenizer.tokenAt?, hrule]
  simp only [hforward, if_true, Cursor.upTo_skip]

/-- The rules of JSON find the lexeme at the front of the text ahead. -/
theorem tokenAt?_json (c : Cursor) (hafter : c.after ≠ []) :
    Tokenizer.tokenAt? Rule.json c =
      (lexeme? c.before.head? c.after).map fun found =>
        (⟨c.offset, (c.skip found.1).offset, found.2⟩, c.skip found.1) := by
  have hrule := ruleAt?_json c
  rw [lexeme?]
  cases hquoted : quoted? c.after with
  | some found =>
      rcases found with ⟨n, cls⟩
      rcases quoted?_spec hquoted with ⟨hpos, hclass⟩
      rw [hquoted] at hrule
      rw [tokenAt?_of_ruleAt? hrule hpos hafter, ← hclass]
      rfl
  | none =>
      cases hkeyword : keyword? c.before.head? c.after with
      | some found =>
          rcases found with ⟨n, cls⟩
          rcases keyword?_spec hkeyword with ⟨hpos, hclass⟩
          rw [hquoted, hkeyword] at hrule
          rw [tokenAt?_of_ruleAt? hrule hpos hafter, ← hclass]
          rfl
      | none =>
          cases hnumber : number? c.after with
          | some found =>
              rcases found with ⟨n, cls⟩
              rcases number?_spec hnumber with ⟨hpos, hclass⟩
              rw [hquoted, hkeyword, hnumber] at hrule
              rw [tokenAt?_of_ruleAt? hrule hpos hafter, hclass]
              rfl
          | none =>
              rw [hquoted, hkeyword, hnumber] at hrule
              rw [Tokenizer.tokenAt?, hrule]
              rfl

/-- Nothing is found at the end of the text. -/
theorem tokenAt?_json_nil {c : Cursor} (hafter : c.after = []) :
    Tokenizer.tokenAt? Rule.json c = none := by
  have hrule := ruleAt?_json c
  have hkeyword : keyword? c.before.head? [] = none := rfl
  rw [hafter, hkeyword] at hrule
  rw [Tokenizer.tokenAt?, hrule]
  rfl

/-! ## The two scans agree -/

/-- From every position, the plain scan by the rules of JSON finds the lexemes
of the text ahead. -/
theorem plainScan_json (c : Cursor) :
    Tokenizer.plainScan Rule.json c = scanAhead c.before.head? c.offset c.after := by
  generalize hremaining : c.remaining = k
  induction k using Nat.strongRecOn generalizing c with
  | ind k ih =>
      rw [Tokenizer.plainScan_eq]
      cases hafter : c.after with
      | nil => rw [tokenAt?_json_nil hafter, Cursor.next?_eq_none.2 hafter, scanAhead_nil]
      | cons x s =>
          rw [tokenAt?_json c (by simp [hafter]), hafter, scanAhead_cons]
          cases hlexeme : lexeme? c.before.head? (x :: s) with
          | none =>
              have hnext := Cursor.next?_of_after hafter
              have hless := Cursor.remaining_of_next? hnext
              simp only [Option.map_none, hnext]
              rw [ih _ (by omega) (c.skip 1) rfl, Cursor.before_skip, Cursor.after_skip, hafter,
                Cursor.offset_of_next? hnext]
              rfl
          | some found =>
              rcases found with ⟨n, cls⟩
              have hpos := lexeme?_pos hlexeme
              have hless : (c.skip n).remaining < k := by
                have hlength := c.remaining_eq
                rw [hafter, List.length_cons] at hlength
                rw [Cursor.remaining_skip]
                omega
              have hoffset := Cursor.offset_skip n c
              rw [hafter] at hoffset
              have hhead : (c.skip n).before.head? = ((x :: s).take n).getLast? := by
                have hne : ((x :: s).take n).reverse ≠ [] := by
                  simp
                  omega
                rw [Cursor.before_skip, hafter, List.head?_append_of_ne_nil _ hne,
                  List.head?_reverse]
              simp only [Option.map_some]
              rw [ih _ hless (c.skip n) rfl, hhead, hoffset, Cursor.after_skip, hafter]

/-- The tokens of the JSON tokenizer are those of the scan. -/
theorem tokens_json (s : List Char) : Tokenizer.json.tokens s = scan s := by
  rw [Tokenizer.tokens_eq_plainTokens, Tokenizer.plainTokens_eq_plainScan, Tokenizer.rules_json,
    plainScan_json, scan_eq_scanAhead]
  rfl

/-- The JSON tokenizer is the scan by the shapes of lexemes: the `n`-th call for
a token gives the `n`-th token of the scan, and no token once there are no more,
and the tokens of a text are all tokens of the scan. -/
theorem json_stream_eq_scan (s : List Char) :
    (∀ n, ((Stream.start Tokenizer.json.rules s).after n).next.1 = (scan s)[n]?) ∧
      Tokenizer.json.tokens s = scan s := by
  refine ⟨?_, tokens_json s⟩
  intro n
  have hyields := Stream.yields_after (Stream.yields_start Tokenizer.json.rules s) n
  rw [(Stream.next_spec hyields).1, List.head?_drop, ← Tokenizer.tokens_eq_plainTokens,
    tokens_json]

end Json
end JsonTint
