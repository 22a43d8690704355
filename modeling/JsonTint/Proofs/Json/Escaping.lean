import JsonTint.Proofs.Html.Escape
import JsonTint.Proofs.Json.Lex

/-!
# Escaping a text moves no token

Escaping a text for HTML neither makes nor breaks a JSON lexeme: the lexemes of
the escaped text are the escaped lexemes of the text, and what escaping puts
between them begins no lexeme of its own.

Main results:

- Theorem `lexeme?_escapeText`: the lexeme at the front of the escaped text is
  the escaped lexeme at the front of the text.
- Theorem `isInertText_entity`: in an entity no lexeme begins.
- Theorem `merge_lex_escapeText`: the rows of lexemes and gaps agree.
- Theorem `json_tokens_escapeText`: the tokens of the escaped text are the
  escaped tokens of the text, and none of them begins or ends in an entity.
-/

namespace JsonTint
namespace Json

open Html Segment

/-! ## Characters -/

/-- No word character needs an escape. -/
theorem unescaped_isWordChar : Unescaped Assertion.isWordChar :=
  unescaped_iff.2 (by decide)

theorem unescaped_isGap : Unescaped isGap :=
  unescaped_iff.2 (by decide)

theorem unescaped_isDigit : Unescaped Char.isDigit :=
  unescaped_iff.2 (by decide)

theorem unescaped_isHexDigit : Unescaped isHexDigit :=
  unescaped_iff.2 (by decide)

/-! ## Quoted texts -/

/-- Behind a backslash and the letter `u`, escaping makes no digit and takes
none away. -/
theorem quotedBody?_escapeText_unicode (s : List Char)
    (ih : ∀ t, t.length ≤ s.length →
      quotedBody? (escapeText t) = (quotedBody? t).map (escapedLength t)) :
    quotedBody? (escapeText ('\\' :: 'u' :: s)) =
      (quotedBody? ('\\' :: 'u' :: s)).map (escapedLength ('\\' :: 'u' :: s)) := by
  have htext : escapeText ('\\' :: 'u' :: s) = '\\' :: 'u' :: escapeText s := rfl
  rw [htext, quotedBody?_unicode, quotedBody?_unicode, takeWhile_escapeText unescaped_isHexDigit]
  split <;> rename_i hdigits
  · have hfour : PlainPrefix 4 s := unescaped_isHexDigit.plainPrefix hdigits
    have htwo : PlainPrefix 2 ('\\' :: 'u' :: s) := ⟨by simp, rfl⟩
    have hsix : PlainPrefix 6 ('\\' :: 'u' :: s) := htwo.add hfour
    have hrest := map_escapedLength_drop ('\\' :: 'u' :: s) 6 (quotedBody? (s.drop 4))
    rw [hsix.escapedLength_eq] at hrest
    rw [hfour.drop_escapeText, ih _ (by simp)]
    exact hrest
  · rfl

/-- Behind a backslash and another character, what escaping adds is plain. -/
theorem quotedBody?_escapeText_escape {x : Char} {s : List Char} (hx : x ≠ 'u')
    (ih : quotedBody? (escapeText s) = (quotedBody? s).map (escapedLength s)) :
    quotedBody? (escapeText ('\\' :: x :: s)) =
      (quotedBody? ('\\' :: x :: s)).map (escapedLength ('\\' :: x :: s)) := by
  rcases exists_escapeChar_eq_cons x with ⟨w, hw, hplain⟩
  have htext : escapeText ('\\' :: x :: s) = '\\' :: escapeHead x :: (w ++ escapeText s) := by
    rw [escapeText_cons, escapeText_cons, hw]
    rfl
  have htwo : escapedLength ('\\' :: x :: s) 2 = 2 + w.length := by
    have hself : escapeChar '\\' = ['\\'] := rfl
    simp [escapedLength, hw, hself]
    omega
  have hhead : escapeHead x ≠ 'u' := by
    rw [Ne, escapeHead_eq_iff rfl]
    exact hx
  have hrest := map_escapedLength_drop ('\\' :: x :: s) 2 (quotedBody? s)
  rw [htwo, List.drop_succ_cons, List.drop_succ_cons, List.drop_zero] at hrest
  rw [htext, quotedBody?_escape hhead, quotedBody?_escape hx, quotedBody?_append hplain, ih,
    ← hrest, Option.map_map (2 + ·)]
  congr 1
  funext n
  exact (Nat.add_assoc 2 w.length n).symm

/-- The inside of an escaped quoted text ends where the escaped inside of the
quoted text does. -/
theorem quotedBody?_escapeText (s : List Char) :
    quotedBody? (escapeText s) = (quotedBody? s).map (escapedLength s) := by
  generalize hlength : s.length = k
  induction k using Nat.strongRecOn generalizing s with
  | ind k ih =>
      cases s with
      | nil => rfl
      | cons c s =>
          rcases exists_escapeChar_eq_cons c with ⟨w, hw, hplain⟩
          by_cases hquote : c = '"'
          · subst hquote
            rfl
          · by_cases hbackslash : c = '\\'
            · subst hbackslash
              cases s with
              | nil => rfl
              | cons x s =>
                  have hs : s.length < k := by
                    rw [← hlength, List.length_cons, List.length_cons]
                    omega
                  by_cases hx : x = 'u'
                  · subst hx
                    exact quotedBody?_escapeText_unicode s fun t ht => ih _ (ht.trans_lt hs) t rfl
                  · exact quotedBody?_escapeText_escape hx (ih _ hs s rfl)
            · have hplain : ∀ x ∈ escapeChar c, x ≠ '"' ∧ x ≠ '\\' := by
                rw [hw, List.forall_mem_cons, Ne, Ne, escapeHead_eq_iff rfl, escapeHead_eq_iff rfl]
                exact ⟨⟨hquote, hbackslash⟩, hplain⟩
              have hone : escapedLength (c :: s) 1 = (escapeChar c).length := by
                simp [escapedLength]
              have hs : s.length < k := by simp [← hlength]
              have hrest := map_escapedLength_drop (c :: s) 1 (quotedBody? s)
              rw [hone, List.drop_succ_cons, List.drop_zero] at hrest
              rw [escapeText_cons, quotedBody?_append hplain, ih _ hs s rfl,
                quotedBody?_plain hquote hbackslash, hrest]

/-- The tail of a key needs no escape. -/
theorem keyTail?_escapeText (s : List Char) : keyTail? (escapeText s) = keyTail? s := by
  rw [keyTail?_eq, keyTail?_eq, dropWhile_escapeText unescaped_isGap,
    takeWhile_escapeText unescaped_isGap]
  simp only [head?_escapeText_eq_some_iff (show isSpecial ':' = false from rfl)]

/-- Where there is a tail of a key, escaping leaves it as it is. -/
theorem plainPrefix_of_keyTail? {s : List Char} {m : Nat} (h : keyTail? s = some m) :
    PlainPrefix m s := by
  rw [keyTail?_eq] at h
  split at h <;> rename_i hcolon
  · cases h
    have hgap : PlainPrefix (s.takeWhile isGap).length s :=
      unescaped_isGap.plainPrefix (Nat.le_refl _)
    apply hgap.add
    rw [drop_length_takeWhile]
    exact plainPrefix_one rfl hcolon
  · contradiction

/-- An escaped quoted text is a quoted text of the same class. -/
theorem quoted?_escapeText (s : List Char) :
    quoted? (escapeText s) =
      (quoted? s).map fun found => (escapedLength s found.1, found.2) := by
  cases s with
  | nil => rfl
  | cons c s =>
      by_cases hc : c = '"'
      · subst hc
        have htext : escapeText ('"' :: s) = '"' :: escapeText s := rfl
        have hone : PlainPrefix 1 ('"' :: s) := plainPrefix_one rfl rfl
        rw [htext, quoted?, quoted?, quotedBody?_escapeText]
        cases quotedBody? s with
        | none => rfl
        | some n =>
            simp only [Option.map_some, drop_escapedLength, keyTail?_escapeText]
            cases htail : keyTail? (s.drop n) with
            | none =>
                simp only [Option.map_some, escapedLength_add, hone.escapedLength_eq,
                  List.drop_succ_cons, List.drop_zero]
            | some m =>
                have hm := plainPrefix_of_keyTail? htail
                have hdrop : ('"' :: s).drop (1 + n) = s.drop n := by
                  rw [Nat.add_comm, List.drop_succ_cons]
                simp only [Option.map_some, escapedLength_add, hone.escapedLength_eq, hdrop,
                  hm.escapedLength_eq, List.drop_succ_cons, List.drop_zero]
      · have hhead : (c :: s).head? ≠ some '"' := by simpa using hc
        have hescaped : (escapeText (c :: s)).head? ≠ some '"' := by
          rwa [Ne, head?_escapeText_eq_some_iff rfl]
        rw [quoted?_eq_none hhead, quoted?_eq_none hescaped, Option.map_none]

/-! ## Keywords -/

/-- Characters of which the one is a word character if the other is. -/
def SameNeighbour (previous previous' : Option Char) : Prop :=
  previous'.any Assertion.isWordChar = previous.any Assertion.isWordChar

/-- A word is ahead of an escaped text exactly if it is ahead of the text. -/
theorem isWordAhead_escapeText {previous previous' : Option Char}
    (hprevious : SameNeighbour previous previous') {word : String}
    (hword : word.toList.any isSpecial = false) (s : List Char) :
    isWordAhead word previous' (escapeText s) = isWordAhead word previous s := by
  rw [isWordAhead, isWordAhead, isPrefixOf_escapeText hword, hprevious]
  cases hahead : word.toList.isPrefixOf s with
  | false => rfl
  | true =>
      have hplain := plainPrefix_of_isPrefixOf hword hahead
      rw [String.length_toList] at hplain
      rw [hplain.drop_escapeText, unescaped_isWordChar.any_head?]

/-- The letters of the keywords need no escape. -/
theorem not_isSpecial_of_mem_keyword :
    ∀ word ∈ keywords, word.toList.any isSpecial = false := by
  decide

/-- A keyword needs no escape. -/
theorem plainPrefix_of_keyword? {previous : Option Char} {s : List Char} {n : Nat}
    {cls : TokenClass} (h : keyword? previous s = some (n, cls)) : PlainPrefix n s := by
  rcases exists_of_keyword? h with ⟨word, hword, hahead, rfl, -⟩
  simp only [isWordAhead, Bool.and_eq_true] at hahead
  rw [← String.length_toList]
  exact plainPrefix_of_isPrefixOf (not_isSpecial_of_mem_keyword word hword) hahead.1.1

/-- An escaped text begins with the same keyword. -/
theorem keyword?_escapeText {previous previous' : Option Char}
    (hprevious : SameNeighbour previous previous') (s : List Char) :
    keyword? previous' (escapeText s) = keyword? previous s := by
  rw [keyword?, keyword?, isWordAhead_escapeText hprevious rfl,
    isWordAhead_escapeText hprevious rfl, isWordAhead_escapeText hprevious rfl]

/-! ## Numbers -/

/-- An escaped text begins with as many digits. -/
theorem digitCount_escapeText (s : List Char) : digitCount (escapeText s) = digitCount s := by
  rw [digitCount, takeWhile_escapeText unescaped_isDigit]
  rfl

theorem plainPrefix_digitCount (s : List Char) : PlainPrefix (digitCount s) s :=
  unescaped_isDigit.plainPrefix (Nat.le_refl _)

/-- An escaped text begins with the same fraction, which needs no escape. -/
theorem fractionLength_escapeText (s : List Char) :
    fractionLength (escapeText s) = fractionLength s ∧ PlainPrefix (fractionLength s) s := by
  rw [fractionLength_eq, fractionLength_eq]
  simp only [head?_escapeText_eq_some_iff (show isSpecial '.' = false from rfl)]
  split <;> rename_i hpoint
  · have hone : PlainPrefix 1 s := plainPrefix_one rfl hpoint
    rw [hone.drop_escapeText, digitCount_escapeText]
    exact ⟨rfl, hone.add (plainPrefix_digitCount _)⟩
  · exact ⟨rfl, plainPrefix_zero s⟩

/-- An escaped text begins with the same sign, which needs no escape. -/
theorem signLength_escapeText {isSign : Char → Bool} (h : Unescaped isSign) (s : List Char) :
    signLength isSign (escapeText s) = signLength isSign s ∧
      PlainPrefix (signLength isSign s) s := by
  rw [signLength, signLength, h.any_head?]
  refine ⟨rfl, ?_⟩
  split <;> rename_i hsign
  · apply h.plainPrefix
    cases s with
    | nil => simp at hsign
    | cons c s =>
        have hc : isSign c = true := hsign
        simp [hc]
  · exact plainPrefix_zero s

/-- An escaped text begins with the same exponent, which needs no escape. -/
theorem exponentLength_escapeText (s : List Char) :
    exponentLength (escapeText s) = exponentLength s ∧ PlainPrefix (exponentLength s) s := by
  have hunescaped : Unescaped isExponentSign := unescaped_iff.2 (by decide)
  rw [exponentLength_eq, exponentLength_eq]
  simp only [head?_escapeText_eq_some_iff (show isSpecial 'e' = false from rfl),
    head?_escapeText_eq_some_iff (show isSpecial 'E' = false from rfl)]
  split <;> rename_i hletter
  · have hone : PlainPrefix 1 s := by
      rcases hletter with h | h
      · exact plainPrefix_one rfl h
      · exact plainPrefix_one rfl h
    rcases signLength_escapeText hunescaped (s.drop 1) with ⟨hsign, hplain⟩
    have hwhole := hone.add hplain
    rw [hone.drop_escapeText, hsign, hwhole.drop_escapeText, digitCount_escapeText]
    refine ⟨rfl, ?_⟩
    split
    · exact plainPrefix_zero s
    · exact hwhole.add (plainPrefix_digitCount _)
  · exact ⟨rfl, plainPrefix_zero s⟩

/-- An escaped text begins with the same number, which needs no escape. -/
theorem number?_escapeText (s : List Char) :
    number? (escapeText s) = number? s ∧
      ∀ n cls, number? s = some (n, cls) → PlainPrefix n s := by
  have hminus : Unescaped (· == '-') := unescaped_beq rfl
  rcases signLength_escapeText hminus s with ⟨hsign, hsignPlain⟩
  rw [number?_eq, number?_eq, hsign]
  generalize signLength (· == '-') s = sign at hsignPlain
  have hwhole := hsignPlain.add (plainPrefix_digitCount (s.drop sign))
  rcases fractionLength_escapeText (s.drop (sign + digitCount (s.drop sign))) with
    ⟨hfraction, hfractionPlain⟩
  have hboth := hwhole.add hfractionPlain
  rcases exponentLength_escapeText (s.drop (sign + digitCount (s.drop sign) +
    fractionLength (s.drop (sign + digitCount (s.drop sign))))) with ⟨hexponent, hexponentPlain⟩
  have hall := hboth.add hexponentPlain
  constructor
  · simp only [hsignPlain.drop_escapeText, digitCount_escapeText, hwhole.drop_escapeText,
      hfraction, hboth.drop_escapeText, hexponent]
  · intro n cls h
    simp only at h
    split at h
    · contradiction
    · cases h
      exact hall

/-! ## Lexemes -/

/-- The lexeme at the front of the escaped text is the escaped lexeme at the
front of the text. -/
theorem lexeme?_escapeText {previous previous' : Option Char}
    (hprevious : SameNeighbour previous previous') (s : List Char) :
    lexeme? previous' (escapeText s) =
      (lexeme? previous s).map fun found => (escapedLength s found.1, found.2) := by
  rcases number?_escapeText s with ⟨hnumber, hnumberPlain⟩
  rw [lexeme?, lexeme?, quoted?_escapeText, keyword?_escapeText hprevious, hnumber]
  cases hquoted : quoted? s with
  | some found => rfl
  | none =>
      cases hkeyword : keyword? previous s with
      | some found =>
          rcases found with ⟨n, cls⟩
          simp only [Option.map_none, Option.map_some,
            (plainPrefix_of_keyword? hkeyword).escapedLength_eq]
      | none =>
          cases hfound : number? s with
          | none => rfl
          | some found =>
              rcases found with ⟨n, cls⟩
              simp only [Option.map_none, Option.map_some,
                (hnumberPlain n cls hfound).escapedLength_eq]

/-! ## The row of lexemes and gaps -/

/-- In an entity no lexeme begins. -/
theorem isInertText_entity {entity : List Char} (hentity : entity ∈ entities)
    (previous : Option Char) : isInertText previous entity = true := by
  have htails : ∀ entity ∈ entities, ∃ tail, entity = '&' :: tail ∧
      isInertText (some '&') tail = true := by
    simp only [entities, List.forall_mem_cons]
    exact ⟨⟨_, rfl, by decide⟩, ⟨_, rfl, by decide⟩, ⟨_, rfl, by decide⟩, by simp⟩
  rcases htails entity hentity with ⟨tail, rfl, htail⟩
  have hfirst : isInert previous '&' = true := by
    simp [isInert]
  rw [isInertText, hfirst, htail, Bool.and_self]

/-- What a character becomes ends like the character. -/
theorem sameNeighbour_escapeChar (c : Char) : SameNeighbour (some c) (escapeChar c).getLast? := by
  cases h : isSpecial c with
  | true =>
      have hlasts : ∀ entity ∈ entities,
          entity.getLast?.any Assertion.isWordChar = false := by decide
      have hentity := hlasts _ (escapeChar_of_isSpecial h)
      rw [SameNeighbour, hentity]
      exact (unescaped_isWordChar c h).symm
  | false =>
      rw [escapeChar_of_not_isSpecial h]
      rfl

/-- An escaped text ends with a word character exactly if the text does. -/
theorem sameNeighbour_escapeText (s : List Char) :
    SameNeighbour s.getLast? (escapeText s).getLast? := by
  rcases List.eq_nil_or_concat' s with rfl | ⟨init, c, rfl⟩
  · rfl
  · rcases exists_escapeChar_eq_cons c with ⟨w, hw, -⟩
    have hlast : (escapeText (init ++ [c])).getLast? = (escapeChar c).getLast? := by
      simp [hw, List.getLast?_append, List.getLast?_cons]
    rw [hlast, List.getLast?_concat]
    exact sameNeighbour_escapeChar c

/-- A character at which no lexeme begins becomes a text in which none does. -/
theorem merge_lex_escapeChar {previous previous' : Option Char}
    (hprevious : SameNeighbour previous previous') {c : Char} {s : List Char}
    (h : lexeme? previous (c :: s) = none) (g : List Char) :
    merge g (lex previous' (escapeText (c :: s))) =
      merge (g ++ escapeChar c) (lex (escapeChar c).getLast? (escapeText s)) := by
  cases hc : isSpecial c with
  | true =>
      have hentity := escapeChar_of_isSpecial hc
      rcases exists_escapeChar_eq_cons c with ⟨w, hw, -⟩
      rw [escapeText_cons, merge_lex_append (isInertText_entity hentity previous')]
      simp [hw, List.getLast?_cons]
  | false =>
      have hescaped := lexeme?_escapeText hprevious (c :: s)
      rw [h, Option.map_none, escapeText_cons, escapeChar_of_not_isSpecial hc,
        List.singleton_append] at hescaped
      rw [escapeText_cons, escapeChar_of_not_isSpecial hc, List.singleton_append,
        lex_of_lexeme?_eq_none hescaped]
      rfl

/-- The row of the escaped text is the escaped row of the text. -/
theorem merge_lex_escapeText {previous previous' : Option Char}
    (hprevious : SameNeighbour previous previous') (g s : List Char) :
    merge (escapeText g) (lex previous' (escapeText s)) =
      merge (escapeText g) ((lex previous s).map (mapText escapeText)) := by
  fun_induction lex previous s generalizing previous' g with
  | case1 => simp
  | case2 previous c s n cls h lexeme hpos =>
      rename_i ih
      have hescaped := lexeme?_escapeText hprevious (c :: s)
      rw [h, Option.map_some] at hescaped
      have hne : escapeText (c :: s) ≠ [] := by
        rcases exists_escapeChar_eq_cons c with ⟨w, hw, -⟩
        simp [hw]
      rw [lex_of_lexeme? hne hescaped, take_escapedLength, drop_escapedLength]
      have hrest := ih (sameNeighbour_escapeText lexeme) []
      rw [escapeText_nil] at hrest
      simp only [List.map_cons, mapText, merge, ← hrest]
      rfl
  | case3 previous c s h ih =>
      have hone : escapeText [c] = escapeChar c := by simp
      have hrest := ih (sameNeighbour_escapeChar c) (g ++ [c])
      rw [escapeText_append, hone] at hrest
      rw [merge_lex_escapeChar hprevious h, hrest, List.map_cons, mapText, merge, hone]

/-! ## The tokens of the escaped text -/

/-- The segments of the escaped text are the escaped segments of the text. -/
theorem segments_escapeText (s : List Char) :
    Tokenizer.json.segments (escapeText s) =
      (Tokenizer.json.segments s).map (mapText escapeText) := by
  have hrow := merge_lex_escapeText (show SameNeighbour none none from rfl) [] s
  rw [escapeText_nil] at hrow
  rw [segments_json, segments_json, hrow, ← merge_map escapeText_append, escapeText_nil]

/-- No token of the escaped text begins or ends in an entity. -/
theorem not_insideEntity_of_mem_tokens {s : List Char} {t : Token}
    (ht : t ∈ Tokenizer.json.tokens (escapeText s)) :
    ¬ InsideEntity (escapeText s) t.start ∧ ¬ InsideEntity (escapeText s) t.stop := by
  rw [tokens_json_eq_tokensFrom_segments, segments_escapeText] at ht
  rcases exists_of_mem_tokensFrom ht with ⟨before, lexeme, after, hrow, hstart, hstop⟩
  rcases List.map_eq_append_iff.1 hrow with ⟨rawBefore, rawRest, hraw, rfl, hrest⟩
  rcases List.map_eq_cons_iff.1 hrest with ⟨raw, rawAfter, rfl, hlexeme, rfl⟩
  have htext : s = join rawBefore ++ raw.text ++ join rawAfter := by
    rw [← Tokenizer.json.join_segments s, hraw, join_append, join_cons, List.append_assoc]
  have hlexemeText : lexeme = escapeText raw.text := by
    cases raw with
    | gap w => contradiction
    | token cls w =>
        cases hlexeme
        rfl
  rw [join_map_mapText escapeText_append, Nat.zero_add] at hstart hstop
  rw [hlexemeText, ← escapeText_append] at hstop
  constructor
  · have h := not_insideEntity_escapeText (join rawBefore) (raw.text ++ join rawAfter)
    rwa [← List.append_assoc, ← htext, ← hstart] at h
  · have h := not_insideEntity_escapeText (join rawBefore ++ raw.text) (join rawAfter)
    rwa [← htext, ← hstop] at h

/-- The tokens of the escaped text are those of the text, with the same classes
and the escaped texts, and the gaps around them are the escaped gaps.  A
highlighted text is made of the escaped segments, and no tag stands in an
entity. -/
theorem json_tokens_escapeText (s : List Char) :
    (Tokenizer.json.tokens (escapeText s)).map (fun t => (t.cls, t.text (escapeText s))) =
        (Tokenizer.json.tokens s).map (fun t => (t.cls, escapeText (t.text s))) ∧
      Tokenizer.json.segments (escapeText s) =
        (Tokenizer.json.segments s).map (mapText escapeText) ∧
      highlightText Tokenizer.json s =
        ((Tokenizer.json.segments s).map (mapText escapeText)).flatMap renderSegment ∧
      ∀ t ∈ Tokenizer.json.tokens (escapeText s),
        ¬ InsideEntity (escapeText s) t.start ∧ ¬ InsideEntity (escapeText s) t.stop := by
  refine ⟨?_, segments_escapeText s, ?_, fun t ht => not_insideEntity_of_mem_tokens ht⟩
  · have hraw := congrArg (List.map fun found : TokenClass × List Char =>
      (found.1, escapeText found.2)) (map_text_tokens_json s)
    rw [List.map_map] at hraw
    rw [map_text_tokens_json, segments_escapeText, filterMap_asToken?_map_mapText, ← hraw]
    rfl
  · rw [highlightText, segments_escapeText]

/-- The key of `{"a<b": 1}` is a token of its escaped form, whose entity it holds
as a whole. -/
theorem json_tokens_escapeText_key :
    (⟨1, 10, .key⟩ : Token) ∈ Tokenizer.json.tokens (escapeText "\x7b\"a<b\": 1\x7d".toList) ∧
      ¬ InsideEntity (escapeText "\x7b\"a<b\": 1\x7d".toList) 1 ∧
      ¬ InsideEntity (escapeText "\x7b\"a<b\": 1\x7d".toList) 10 := by
  have ht : (⟨1, 10, .key⟩ : Token) ∈
      Tokenizer.json.tokens (escapeText "\x7b\"a<b\": 1\x7d".toList) := by
    rw [tokens_json]
    decide
  exact ⟨ht, (json_tokens_escapeText _).2.2.2 _ ht⟩

end Json
end JsonTint
