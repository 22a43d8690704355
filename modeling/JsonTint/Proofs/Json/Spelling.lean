import JsonTint.Json.Grammar
import JsonTint.Proofs.Json.Lexeme

/-!
# The lexemes of spelled values

The scanner takes a spelled string, number or literal name as one lexeme, if
the text behind it does not go on with it.

Main results:

- Theorem `lexeme?_quote` and theorem `lexeme?_key`: a quoted text is a string
  or, with a colon behind it, a key.
- Theorem `lexeme?_keyword`: a literal name is a keyword.
- Theorem `lexeme?_of_numberSpelled`: a number is a number.
-/

namespace JsonTint
namespace Json

/-! ## What ends a value -/

/-- The text ahead does not go on with the lexeme of a value before it. -/
structure EndsValue (s : List Char) : Prop where
  keyTail?_eq_none : keyTail? s = none
  not_isWordChar : s.head?.any Assertion.isWordChar = false
  ne_point : s.head? ≠ some '.'

/-- White space is made of four characters. -/
theorem isSpace_iff {c : Char} :
    isSpace c = true ↔ c = ' ' ∨ c = '\t' ∨ c = '\n' ∨ c = '\r' := by
  simp only [isSpace, Bool.or_eq_true, beq_iff_eq, or_assoc]

/-- White space may stand before a colon, and goes on with no lexeme. -/
theorem isGap_of_isSpace {c : Char} (h : isSpace c = true) :
    isGap c = true ∧ Assertion.isWordChar c = false ∧ c ≠ '.' := by
  rcases isSpace_iff.1 h with rfl | rfl | rfl | rfl <;> decide

theorem endsValue_nil : EndsValue [] :=
  ⟨rfl, rfl, by simp⟩

/-- Commas and closing brackets end a value. -/
theorem endsValue_cons {c : Char} (hc : c = ',' ∨ c = ']' ∨ c = '}') (s : List Char) :
    EndsValue (c :: s) := by
  have hchar : isGap c = false ∧ c ≠ ':' ∧ Assertion.isWordChar c = false ∧ c ≠ '.' := by
    rcases hc with rfl | rfl | rfl <;> decide
  rcases hchar with ⟨hgap, hcolon, hword, hpoint⟩
  refine ⟨?_, hword, by simpa using hpoint⟩
  simp [keyTail?_eq, hgap, hcolon]

/-- White space before what ends a value ends it too. -/
theorem EndsValue.append {s w : List Char} (hw : w.all isSpace = true) (h : EndsValue s) :
    EndsValue (w ++ s) := by
  have hspace : ∀ c ∈ w, isSpace c = true := List.all_eq_true.1 hw
  refine ⟨?_, ?_, ?_⟩
  · rw [keyTail?_append fun c hc => (isGap_of_isSpace (hspace c hc)).1, h.keyTail?_eq_none,
      Option.map_none]
  · cases w with
    | nil => exact h.not_isWordChar
    | cons c w => exact (isGap_of_isSpace (hspace c List.mem_cons_self)).2.1
  · cases w with
    | nil => exact h.ne_point
    | cons c w => simpa using (isGap_of_isSpace (hspace c List.mem_cons_self)).2.2

/-! ## Quoted texts -/

/-- The inside of a quoted text is read up to its closing quote. -/
theorem quotedBody?_of_stringSpelled {units : List UInt16} {s : List Char}
    (h : StringSpelled units s) (rest : List Char) :
    quotedBody? (s ++ '"' :: rest) = some (s.length + 1) := by
  induction h with
  | nil => rfl
  | plain hcontrol hquote hbackslash hs ih =>
      rw [List.cons_append, quotedBody?_plain hquote hbackslash, ih, Option.map_some,
        List.length_cons, Nat.add_comm 1]
  | short hescape hs ih =>
      have hletters : ∀ escape ∈ shortEscapes, escape.1 ≠ 'u' := by decide
      rw [List.cons_append, List.cons_append, quotedBody?_escape (hletters _ hescape), ih]
      simp only [Option.map_some, List.length_cons]
      exact congrArg some (by omega)
  | @unicode units s digits hlength hdigits hs ih =>
      have htext : '\\' :: 'u' :: digits ++ s ++ '"' :: rest =
          '\\' :: 'u' :: (digits ++ (s ++ '"' :: rest)) := by simp
      have hfour : 4 ≤ ((digits ++ (s ++ '"' :: rest)).takeWhile isHexDigit).length := by
        rw [List.takeWhile_append_of_pos (List.all_eq_true.1 hdigits), List.length_append, hlength]
        exact Nat.le_add_right 4 _
      rw [htext, quotedBody?_unicode, if_pos hfour, List.drop_left' hlength, ih]
      simp only [Option.map_some, List.length_append, List.length_cons, hlength]
      exact congrArg some (by omega)

/-- A spelled string is read up to its closing quote, or up to the colon behind
it. -/
theorem quoted?_quote {units : List UInt16} {s : List Char} (h : StringSpelled units s)
    (rest : List Char) :
    quoted? (quote s ++ rest) =
      match keyTail? rest with
      | some m => some (s.length + 2 + m, .key)
      | none => some (s.length + 2, .string) := by
  have htext : quote s ++ rest = '"' :: (s ++ '"' :: rest) := by simp [quote]
  have hdrop : (s ++ '"' :: rest).drop (s.length + 1) = rest := by simp
  have hlength : 1 + (s.length + 1) = s.length + 2 := by omega
  rw [htext, quoted?, quotedBody?_of_stringSpelled h]
  cases htail : keyTail? rest with
  | none => simp only [hdrop, htail, hlength]
  | some m => simp only [hdrop, htail, hlength]

/-- A quoted text before the end of a value is a string. -/
theorem lexeme?_quote {units : List UInt16} {s rest : List Char} (h : StringSpelled units s)
    (hrest : EndsValue rest) (previous : Option Char) :
    lexeme? previous (quote s ++ rest) = some ((quote s).length, .string) := by
  have hlength : (quote s).length = s.length + 2 := by simp [quote]
  rw [lexeme?, quoted?_quote h, hrest.keyTail?_eq_none, hlength]

/-- A quoted text is a key with the white space and the colon behind it. -/
theorem lexeme?_key {units : List UInt16} {s tail : List Char} (h : StringSpelled units s)
    (htail : tail.all isSpace = true) (rest : List Char) (previous : Option Char) :
    lexeme? previous (quote s ++ tail ++ [':'] ++ rest) =
      some ((quote s ++ tail ++ [':']).length, .key) := by
  have htext : quote s ++ tail ++ [':'] ++ rest = quote s ++ (tail ++ ':' :: rest) := by simp
  have hspace : ∀ c ∈ tail, isGap c = true := fun c hc =>
    (isGap_of_isSpace (List.all_eq_true.1 htail c hc)).1
  have hcolon : keyTail? (':' :: rest) = some 1 := by simp [keyTail?_eq]
  have hlength : (quote s ++ tail ++ [':']).length = s.length + 2 + (tail.length + 1) := by
    simp [quote]
    omega
  rw [htext, lexeme?, quoted?_quote h, keyTail?_append hspace, hcolon, hlength]
  rfl

/-! ## Literal names -/

/-- A word with another first letter is not ahead. -/
theorem isWordAhead_of_ne {word : String} {previous : Option Char} {c x : Char} {s : List Char}
    (hword : word.toList.head? = some x) (hne : c ≠ x) :
    isWordAhead word previous (c :: s) = false := by
  apply isWordAhead_eq_false
  · intro hnil
    rw [hnil] at hword
    contradiction
  · intro hc
    exact (hne (Option.some.inj (hc.symm.trans hword))).elim

/-- A word that is ahead is the keyword that is ahead. -/
theorem keyword?_of_isWordAhead {word : String} (hword : word ∈ keywords)
    {previous : Option Char} {s : List Char} (h : isWordAhead word previous s = true) :
    keyword? previous s = some (word.length, Rule.classifyKeyword word.toList) := by
  rcases isWordAhead_iff.1 h with ⟨rest, rfl, -⟩
  simp only [keywords, List.mem_cons, List.not_mem_nil, or_false] at hword
  rcases hword with rfl | rfl | rfl
  · rw [keyword?, h]
    rfl
  · have htrue : isWordAhead "true" previous ("false".toList ++ rest) = false :=
      isWordAhead_of_ne (x := 't') rfl (by decide)
    rw [keyword?, htrue, h]
    rfl
  · have htrue : isWordAhead "true" previous ("null".toList ++ rest) = false :=
      isWordAhead_of_ne (x := 't') rfl (by decide)
    have hfalse : isWordAhead "false" previous ("null".toList ++ rest) = false :=
      isWordAhead_of_ne (x := 'f') rfl (by decide)
    rw [keyword?, htrue, hfalse, h]
    rfl

/-- A literal name between characters that are not word characters is a
keyword. -/
theorem lexeme?_keyword {word : String} (hword : word ∈ keywords) {previous : Option Char}
    {rest : List Char} (hprevious : previous.any Assertion.isWordChar = false)
    (hrest : rest.head?.any Assertion.isWordChar = false) :
    lexeme? previous (word.toList ++ rest) =
      some (word.length, Rule.classifyKeyword word.toList) := by
  have hquote : (word.toList ++ rest).head? ≠ some '"' := by
    simp only [keywords, List.mem_cons, List.not_mem_nil, or_false] at hword
    rcases hword with rfl | rfl | rfl <;> simp
  rw [lexeme?, quoted?_eq_none hquote,
    keyword?_of_isWordAhead hword (isWordAhead_iff.2 ⟨rest, rfl, hprevious, hrest⟩)]

/-! ## Numbers -/

/-- Digits are counted up to what is not one. -/
theorem digitCount_append {s rest : List Char} (hs : s.all Char.isDigit = true)
    (hrest : rest.head?.any Char.isDigit = false) : digitCount (s ++ rest) = s.length := by
  rw [digitCount, List.takeWhile_append_of_pos (List.all_eq_true.1 hs), List.length_append]
  cases rest with
  | nil => rfl
  | cons c rest =>
      have hc : c.isDigit = false := hrest
      simp [hc]

/-- What is not a word character is not a digit, and no exponent begins
there. -/
theorem head?_of_not_isWordChar {s : List Char} (h : s.head?.any Assertion.isWordChar = false) :
    s.head?.any Char.isDigit = false ∧ s.head? ≠ some 'e' ∧ s.head? ≠ some 'E' := by
  cases s with
  | nil => simp
  | cons c s =>
      have hc : Assertion.isWordChar c = false := h
      refine ⟨?_, ?_, ?_⟩
      · cases hdigit : c.isDigit with
        | false => exact hdigit
        | true => simp [Assertion.isWordChar, Char.isAlphanum, hdigit] at hc
      · rw [List.head?_cons, Ne, Option.some.injEq]
        rintro rfl
        exact absurd hc (by decide)
      · rw [List.head?_cons, Ne, Option.some.injEq]
        rintro rfl
        exact absurd hc (by decide)

/-- A sign is read if it is there. -/
theorem signLength_append {isSign : Char → Bool} {s rest : List Char}
    (hs : s = [] ∨ ∃ c, s = [c] ∧ isSign c = true) (hrest : rest.head?.any isSign = false) :
    signLength isSign (s ++ rest) = s.length := by
  rcases hs with rfl | ⟨c, rfl, hc⟩
  · simp [signLength, hrest]
  · simp [signLength, hc]

/-- No digit is a sign. -/
theorem head?_append_of_all_isDigit {isSign : Char → Bool}
    (hsign : ∀ c, isSign c = true → c.isDigit = false) {s : List Char} (hne : s ≠ [])
    (hs : s.all Char.isDigit = true) (rest : List Char) :
    (s ++ rest).head?.any isSign = false := by
  cases s with
  | nil => contradiction
  | cons c s =>
      have hdigit : c.isDigit = true := List.all_eq_true.1 hs c List.mem_cons_self
      cases hc : isSign c with
      | false => exact hc
      | true => exact (Bool.false_ne_true ((hsign c hc).symm.trans hdigit)).elim

/-- A whole number is a row of digits, and not an empty one. -/
theorem WholeSpelled.digits_ne_nil {s : List Char} (h : WholeSpelled s) :
    s ≠ [] ∧ s.all Char.isDigit = true := by
  cases h with
  | zero => decide
  | digits hzero hc hs => simp [hc, hs]

/-- A fraction is read as a whole. -/
theorem fractionLength_append {digits s rest : List Char} (h : FractionSpelled digits s)
    (hdigit : rest.head?.any Char.isDigit = false) (hpoint : rest.head? ≠ some '.') :
    fractionLength (s ++ rest) = s.length := by
  rw [fractionLength_eq]
  cases h with
  | none => simp [hpoint]
  | digits hne hs => simp [digitCount_append hs hdigit, Nat.add_comm 1]

/-- An exponent is read as a whole. -/
theorem exponentLength_append {exponent : Int} {s rest : List Char}
    (h : ExponentSpelled exponent s) (hrest : rest.head?.any Assertion.isWordChar = false) :
    exponentLength (s ++ rest) = s.length := by
  rcases head?_of_not_isWordChar hrest with ⟨hdigit, hsmall, hcapital⟩
  rw [exponentLength_eq]
  cases h with
  | none => simp [hsmall, hcapital]
  | @digits letter factor sign digits hletter hsign hne hs =>
      have hlength : signLength isExponentSign (sign ++ (digits ++ rest)) = sign.length := by
        apply signLength_append
        · cases hsign with
          | none => exact Or.inl rfl
          | plus => exact Or.inr ⟨_, rfl, rfl⟩
          | minus => exact Or.inr ⟨_, rfl, rfl⟩
        · apply head?_append_of_all_isDigit _ hne hs
          intro c hc
          have hc : c = '+' ∨ c = '-' := by simpa [isExponentSign] using hc
          rcases hc with rfl | rfl <;> rfl
      have hdigits : digits.length ≠ 0 := by simpa using hne
      have hhead : (letter :: sign ++ digits ++ rest).head? = some 'e' ∨
          (letter :: sign ++ digits ++ rest).head? = some 'E' := by simpa using hletter
      have hdrop : (letter :: sign ++ digits ++ rest).drop 1 = sign ++ (digits ++ rest) := by simp
      have hbehind : (letter :: sign ++ digits ++ rest).drop (1 + sign.length) =
          digits ++ rest := by
        rw [← List.drop_drop, hdrop, List.drop_left]
      simp only [if_pos hhead, hdrop, hlength, hbehind, digitCount_append hs hdigit,
        if_neg hdigits, List.length_append, List.length_cons]
      omega

/-- What may stand behind a fraction does not go on with it. -/
theorem head?_exponent_append {exponent : Int} {s rest : List Char}
    (h : ExponentSpelled exponent s) (hrest : EndsValue rest) :
    (s ++ rest).head?.any Char.isDigit = false ∧ (s ++ rest).head? ≠ some '.' := by
  cases h with
  | none => exact ⟨(head?_of_not_isWordChar hrest.not_isWordChar).1, hrest.ne_point⟩
  | digits hletter hsign hne hs =>
      rcases hletter with rfl | rfl
      · exact ⟨rfl, by simp⟩
      · exact ⟨rfl, by simp⟩

/-- A fraction begins with no digit. -/
theorem head?_fraction_append {digits s rest : List Char} (h : FractionSpelled digits s)
    (hrest : rest.head?.any Char.isDigit = false) :
    (s ++ rest).head?.any Char.isDigit = false := by
  cases h with
  | none => exact hrest
  | digits hne hs => rfl

/-- A number is read as a whole before the end of a value. -/
theorem number?_of_numberSpelled {x : Rat} {s rest : List Char} (h : NumberSpelled x s)
    (hrest : EndsValue rest) : number? (s ++ rest) = some (s.length, .number) := by
  cases h with
  | @parts factor exponent sign whole digits fraction tail hsign hwhole hfraction htail =>
      rcases hwhole.digits_ne_nil with ⟨hne, hdigits⟩
      rcases head?_exponent_append htail hrest with ⟨htailDigit, htailPoint⟩
      have htext : sign ++ whole ++ fraction ++ tail ++ rest =
          sign ++ (whole ++ (fraction ++ (tail ++ rest))) := by simp
      have hsignLength : signLength (· == '-') (sign ++ (whole ++ (fraction ++ (tail ++ rest)))) =
          sign.length := by
        apply signLength_append
        · cases hsign with
          | none => exact Or.inl rfl
          | minus => exact Or.inr ⟨_, rfl, rfl⟩
        · apply head?_append_of_all_isDigit _ hne hdigits
          intro c hc
          rw [eq_of_beq hc]
          rfl
      have hwholeCount : digitCount (whole ++ (fraction ++ (tail ++ rest))) = whole.length :=
        digitCount_append hdigits (head?_fraction_append hfraction htailDigit)
      have hpositive : whole.length ≠ 0 := by simpa using hne
      have hbehindWhole : (sign ++ (whole ++ (fraction ++ (tail ++ rest)))).drop
          (sign.length + whole.length) = fraction ++ (tail ++ rest) := by
        rw [← List.drop_drop, List.drop_left, List.drop_left]
      have hfractionLength := fractionLength_append hfraction htailDigit htailPoint
      have hbehindFraction : (sign ++ (whole ++ (fraction ++ (tail ++ rest)))).drop
          (sign.length + whole.length + fraction.length) = tail ++ rest := by
        rw [← List.drop_drop, hbehindWhole, List.drop_left]
      have htailLength := exponentLength_append htail hrest.not_isWordChar
      rw [htext, number?_eq]
      simp only [hsignLength, List.drop_left, hwholeCount, if_neg hpositive, hbehindWhole,
        hfractionLength, hbehindFraction, htailLength, List.length_append]

/-- A number begins with a minus sign or a digit. -/
theorem exists_of_numberSpelled {x : Rat} {s : List Char} (h : NumberSpelled x s) :
    ∃ c t, s = c :: t ∧ (c = '-' ∨ c.isDigit = true) := by
  cases h with
  | parts hsign hwhole hfraction htail =>
      cases hsign with
      | minus => exact ⟨'-', _, rfl, Or.inl rfl⟩
      | none =>
          cases hwhole with
          | zero => exact ⟨'0', _, rfl, Or.inr rfl⟩
          | digits hzero hc hs => exact ⟨_, _, rfl, Or.inr hc⟩

/-- A number before the end of a value is a number. -/
theorem lexeme?_of_numberSpelled {x : Rat} {s rest : List Char} (h : NumberSpelled x s)
    (hrest : EndsValue rest) (previous : Option Char) :
    lexeme? previous (s ++ rest) = some (s.length, .number) := by
  have hnumber := number?_of_numberSpelled h hrest
  rcases exists_of_numberSpelled h with ⟨c, t, rfl, hc⟩
  have hne : ∀ x, x ≠ '-' → x.isDigit = false → c ≠ x := by
    rintro x hminus hdigit rfl
    rcases hc with hc | hc
    · exact hminus hc
    · exact Bool.false_ne_true (hdigit.symm.trans hc)
  have hquoted : quoted? (c :: t ++ rest) = none := by
    apply quoted?_eq_none
    simpa using hne '"' (by decide) rfl
  have hkeyword : keyword? previous (c :: t ++ rest) = none := by
    apply keyword?_eq_none
    rintro (hletter | hletter | hletter)
    · exact (hne 't' (by decide) rfl hletter).elim
    · exact (hne 'f' (by decide) rfl hletter).elim
    · exact (hne 'n' (by decide) rfl hletter).elim
  rw [lexeme?, hquoted, hkeyword, hnumber]

end Json
end JsonTint
