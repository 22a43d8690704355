import JsonTint.Proofs.Json.Lexeme
import JsonTint.Proofs.Pattern.Greedy
import JsonTint.Rule.Json

/-!
# The patterns of JSON match the shapes of its lexemes

Each of the three patterns of JSON, run at a position, takes exactly the
characters that the corresponding lexeme at the front of the text ahead has.

Main results:

- Theorem `matchAt_quotedPattern`: quoted texts and keys.
- Theorem `matchAt_keywordPattern`: keywords, between the neighbours that the
  whole text gives them.
- Theorem `matchAt_numberPattern`: numbers.
-/

namespace JsonTint
namespace Json

open Pattern Rule

variable {α : Type}

/-! ## Character classes -/

theorem contains_hexDigit (x : Char) : CharClass.hexDigit.contains x = isHexDigit x := by
  simp [CharClass.hexDigit, CharClass.contains, Text.inRanges, isHexDigit, Char.isDigit,
    Char.le_def, Bool.or_assoc]

theorem contains_digit (x : Char) : CharClass.digit.contains x = x.isDigit := by
  simp [CharClass.digit, CharClass.contains, Text.inRanges, Char.isDigit, Char.le_def]

theorem contains_keyGap (x : Char) : keyGap.contains x = isGap x := by
  have hmark : Text.inRanges [('\ufeff', '\ufeff')] x = (x == '\ufeff') := by
    simp [Text.inRanges_cons_self]
  simp only [keyGap, CharClass.contains, isGap, Text.isBlank, ← hmark]
  simp [Text.inRanges, List.any_append]

/-- The characters that may follow a backslash by themselves. -/
theorem contains_notU (x : Char) : CharClass.contains ⟨[('u', 'u')], true⟩ x = (x != 'u') := by
  simp [CharClass.contains, Text.inRanges_cons_self, bne]

/-- The characters that stand for themselves in a quoted text. -/
theorem contains_plain (x : Char) :
    CharClass.contains ⟨[('\\', '\\'), ('"', '"')], true⟩ x = !(x == '\\' || x == '"') := by
  simp [CharClass.contains, Text.inRanges_cons_self, bne]

/-- A text begins with a digit exactly if it has digits in front. -/
theorem begins_digit (s : List Char) :
    CharClass.digit.begins s = true ↔ digitCount s ≠ 0 := by
  cases s with
  | nil => simp [digitCount]
  | cons x s =>
      by_cases hx : x.isDigit = true <;> simp [digitCount, contains_digit, hx]

/-! ## Quoted texts -/

/-- A unit of a quoted text takes the characters of the unit. -/
theorem run_quotedUnit (rest : Cursor → Option α) (c : Cursor) :
    quotedUnit.run rest c = (unitLength? c.after).bind fun n => rest (c.skip n) := by
  have hafter : ∀ s, c.after = s → quotedUnit.run rest c =
      (unitLength? s).bind fun n => rest (c.skip n) := by
    intro s hs
    simp only [quotedUnit, choice, run_alt, Pattern.sequence, times, run_seq, run_chars, just,
      Cursor.after_skip, Cursor.skip_skip, hs]
    fun_cases unitLength? s with
    | case1 => rfl
    | case2 a b c d s hhex =>
        have hhex' : isHexDigit a ∧ isHexDigit b ∧ isHexDigit c ∧ isHexDigit d := by
          simpa using hhex
        simp [contains_hexDigit, hhex', contains_notU, contains_plain]
    | case3 a b c d s hhex =>
        simp [contains_hexDigit, contains_notU, contains_plain]
        intro ha hb hc hd
        exact (hhex (by simp [ha, hb, hc, hd])).elim
    | case4 s hshape =>
        simp [contains_notU, contains_plain]
        intro _ _ _ hfourth
        rcases s with _ | ⟨a, _ | ⟨b, _ | ⟨c, _ | ⟨d, s⟩⟩⟩⟩
        · simp at hfourth
        · simp at hfourth
        · simp at hfourth
        · simp at hfourth
        · exact (hshape a b c d s rfl rfl).elim
    | case5 x s hshape hx => simp [contains_notU, contains_plain, hx]
    | case6 x s _ hescape hx =>
        rcases hx with rfl | rfl
        · cases s with
          | nil => simp [contains_plain]
          | cons y s => exact (hescape y s rfl rfl).elim
        · simp [contains_plain]
    | case7 x s _ hescape hx =>
        rw [not_or] at hx
        simp [contains_plain, hx]
  exact hafter c.after rfl

/-- The inside of a quoted text and its closing quote take what the quoted text
takes. -/
theorem run_quotedBody (rest : Cursor → Option α) (c : Cursor) :
    (star quotedUnit).run ((just '"').run rest) c =
      (quotedBody? c.after).bind fun n => rest (c.skip n) := by
  generalize hremaining : c.remaining = k
  induction k using Nat.strongRecOn generalizing c with
  | ind k ih =>
      rw [run_star rfl, run_quotedUnit, run_just, quotedBody?_eq]
      by_cases hquote : c.after.head? = some '"'
      · rcases List.head?_eq_some_iff.1 hquote with ⟨s, hs⟩
        simp [hs, unitLength?_quote]
      · simp only [hquote, if_false, Option.or_none]
        cases hunit : unitLength? c.after with
        | none => rfl
        | some n =>
            rcases unitLength?_pos hunit with ⟨hpos, hle⟩
            have hforward : c.offset < (c.skip n).offset :=
              Cursor.offset_lt_skip hpos hle
            have hless := (Cursor.reaches_skip n c).remaining_lt hforward
            rw [Option.bind_some, Option.bind_some]
            rw [ih _ (hremaining ▸ hless) (c.skip n) rfl, Cursor.after_skip]
            cases quotedBody? (c.after.drop n) with
            | none => rfl
            | some m => simp [Cursor.skip_skip]

/-- The gap and the colon behind a quoted text are taken if both are there. -/
theorem run_keyTail (c : Cursor) :
    (optional (sequence [star (chars keyGap), just ':'])).run some c =
      some (c.skip ((keyTail? c.after).getD 0)) := by
  have hsettles : SettlesBehind keyGap ((just ':').run some) := by
    apply settlesBehind_of_eq_none
    intro d hd
    rw [run_just]
    cases hafter : d.after with
    | nil => rfl
    | cons x s =>
        rw [hafter, CharClass.begins_cons, contains_keyGap] at hd
        have hx : x ≠ ':' := by
          rintro rfl
          exact Bool.false_ne_true (isGap_colon.symm.trans hd)
        simp [hx]
  have hgap : keyGap.contains = isGap := funext contains_keyGap
  rw [run_optional, Pattern.sequence, Pattern.sequence, run_seq, run_star_chars hsettles,
    run_just, hgap, keyTail?_eq, Cursor.after_skip, drop_length_takeWhile]
  by_cases h : (c.after.dropWhile isGap).head? = some ':'
  · simp [h, Cursor.skip_skip]
  · simp [h]

/-- The pattern of quoted texts takes a quoted text. -/
theorem matchAt_quotedPattern (c : Cursor) :
    quotedPattern.matchAt c = (quoted? c.after).map fun found => c.skip found.1 := by
  change (just '"').run ((star quotedUnit).run ((just '"').run
    ((optional (sequence [star (chars keyGap), just ':'])).run some))) c = _
  rw [run_just]
  cases hafter : c.after with
  | nil => rfl
  | cons x s =>
      by_cases hx : x = '"'
      · subst hx
        rw [List.head?_cons, if_pos rfl, run_quotedBody, quoted?, Cursor.after_skip, hafter,
          List.drop_succ_cons, List.drop_zero]
        cases quotedBody? s with
        | none => rfl
        | some n =>
            have hdrop : ('"' :: s).drop (1 + n) = s.drop n := by
              rw [Nat.add_comm, List.drop_succ_cons]
            simp only [Option.bind_some, run_keyTail, Cursor.skip_skip, Cursor.after_skip, hafter,
              hdrop]
            cases keyTail? (s.drop n) with
            | none => rfl
            | some m => simp [Nat.add_assoc]
      · have hnone : quoted? (x :: s) = none := by
          unfold quoted?
          split <;> simp_all
        simp [hx, hnone]

/-! ## Keywords -/

/-- A text that begins with a word touches a word. -/
theorem touchesWord_append {word : List Char} (hne : word ≠ [])
    (hword : ∀ x ∈ word, Assertion.isWordChar x = true) (s : List Char) :
    Assertion.touchesWord (word ++ s) = true := by
  cases word with
  | nil => contradiction
  | cons x word => exact hword x List.mem_cons_self

/-- A word between word boundaries takes the word, if its neighbours in the
whole text are not word characters. -/
theorem run_word {word : String} (hne : word.toList ≠ [])
    (hword : word.toList.all Assertion.isWordChar = true) (c : Cursor) :
    (assert .wordBoundary).run
        ((literal word.toList).run ((assert .wordBoundary).run some)) c =
      if isWordAhead word c.before.head? c.after then some (c.skip word.length) else none := by
  rw [run_assert, run_literal, run_assert, String.length_toList]
  rw [List.all_eq_true] at hword
  by_cases hahead : word.toList.isPrefixOf c.after = true
  · rcases List.isPrefixOf_iff_prefix.1 hahead with ⟨rest, hrest⟩
    have hdrop : (c.skip word.length).after = rest := by
      rw [Cursor.after_skip, ← hrest, ← String.length_toList, List.drop_left]
    have hbefore : (c.skip word.length).before = word.toList.reverse ++ c.before := by
      rw [Cursor.before_skip, ← hrest, ← String.length_toList, List.take_left]
    have hfirst : Assertion.touchesWord c.after = true := by
      rw [← hrest]
      exact touchesWord_append hne hword rest
    have hlast : Assertion.touchesWord (c.skip word.length).before = true := by
      rw [hbefore]
      apply touchesWord_append
      · simpa using hne
      · simpa using hword
    have hahead' : isWordAhead word c.before.head? c.after =
        (!Assertion.touchesWord c.before && !Assertion.touchesWord rest) := by
      rw [isWordAhead, hahead, ← Cursor.after_skip, hdrop, Bool.true_and]
      rfl
    simp only [Assertion.holds, hahead, hahead', hfirst, hlast, hdrop]
    cases Assertion.touchesWord c.before <;> cases Assertion.touchesWord rest <;> rfl
  · have hnot : isWordAhead word c.before.head? c.after = false := by
      simp [isWordAhead, hahead]
    simp [hahead, hnot]

/-- The pattern of keywords takes a keyword. -/
theorem matchAt_keywordPattern (c : Cursor) :
    keywordPattern.matchAt c =
      (keyword? c.before.head? c.after).map fun found => c.skip found.1 := by
  have hchoice : keywordPattern.matchAt c =
      ((assert .wordBoundary).run
          ((literal "true".toList).run ((assert .wordBoundary).run some)) c).or
        (((assert .wordBoundary).run
            ((literal "false".toList).run ((assert .wordBoundary).run some)) c).or
          ((assert .wordBoundary).run
            ((literal "null".toList).run ((assert .wordBoundary).run some)) c)) := by
    simp only [matchAt, keywordPattern, Pattern.sequence, choice, run_seq, run_alt, run_assert]
    split <;> rfl
  rw [hchoice, run_word (by decide) rfl, run_word (by decide) rfl, run_word (by decide) rfl,
    keyword?]
  cases isWordAhead "true" c.before.head? c.after
  · cases isWordAhead "false" c.before.head? c.after
    · cases isWordAhead "null" c.before.head? c.after <;> rfl
    · rfl
  · rfl

/-! ## Numbers -/

/-- The fraction of a number, as far as there is one. -/
def fractionPattern : Pattern :=
  optional (sequence [just '.', star (chars .digit)])

/-- The exponent of a number, as far as there is one. -/
def exponentPattern : Pattern :=
  optional (sequence [
    chars ⟨[('e', 'e'), ('E', 'E')], false⟩,
    optional (chars ⟨[('+', '+'), ('-', '-')], false⟩),
    plus (chars .digit)])

/-- Digits take all digits that follow in a row. -/
theorem run_digits {rest : Cursor → Option α} (hrest : ∀ c, (rest c).isSome) (c : Cursor) :
    (plus (chars .digit)).run rest c =
      if digitCount c.after = 0 then none else rest (c.skip (digitCount c.after)) := by
  have hdigit : CharClass.digit.contains = Char.isDigit := funext contains_digit
  rw [run_plus_chars (settlesBehind_of_isSome _ hrest), hdigit]
  by_cases h : digitCount c.after = 0
  · have hbegins : ¬ CharClass.digit.begins c.after = true := by
      rw [begins_digit]
      exact not_not.2 h
    rw [if_pos h, if_neg hbegins]
  · rw [if_neg h, if_pos ((begins_digit _).2 h)]
    rfl

/-- A sign that may be missing in front of digits. -/
theorem run_sign {sign : CharClass} {rest : Cursor → Option α}
    (hsign : ∀ x, sign.contains x = true → x.isDigit = false)
    (hrest : ∀ c, (rest c).isSome) (c : Cursor) :
    (optional (chars sign)).run ((plus (chars .digit)).run rest) c =
      (plus (chars .digit)).run rest (c.skip (if sign.begins c.after then 1 else 0)) := by
  apply run_optional_chars
  intro d hd
  rw [run_digits hrest]
  cases hafter : d.after with
  | nil => rfl
  | cons x s =>
      rw [hafter, CharClass.begins_cons] at hd
      simp [digitCount, hsign x hd]

/-- The signs of an exponent. -/
theorem begins_sign (s : List Char) :
    CharClass.begins ⟨[('+', '+'), ('-', '-')], false⟩ s = true ↔
      s.head? = some '+' ∨ s.head? = some '-' := by
  cases s with
  | nil => simp
  | cons x s => simp [CharClass.contains, Text.inRanges_cons_self]

/-- The exponent takes its sign and digits, or nothing if there are none. -/
theorem run_exponent (c : Cursor) :
    exponentPattern.run some c = some (c.skip (exponentLength c.after)) := by
  have hsign : ∀ x, CharClass.contains ⟨[('+', '+'), ('-', '-')], false⟩ x = true →
      x.isDigit = false := by
    intro x hx
    have hcases : x = '+' ∨ x = '-' := by
      simpa [CharClass.contains, Text.inRanges_cons_self] using hx
    rcases hcases with rfl | rfl <;> rfl
  have hsome : ∀ c : Cursor, (some c).isSome := fun _ => rfl
  rw [exponentPattern, run_optional, Pattern.sequence, Pattern.sequence, Pattern.sequence,
    run_seq, run_chars, run_seq, run_sign hsign hsome, run_digits hsome]
  cases hafter : c.after with
  | nil => rfl
  | cons x s =>
      have hskip : (c.skip 1).after = s := by simp [hafter]
      have hletter : CharClass.contains ⟨[('e', 'e'), ('E', 'E')], false⟩ x = true ↔
          x = 'e' ∨ x = 'E' := by
        simp [CharClass.contains, Text.inRanges_cons_self]
      rw [exponentLength, CharClass.begins_cons, Cursor.after_skip _ (c.skip 1), hskip]
      simp only [hletter, begins_sign, Cursor.skip_skip]
      by_cases hx : x = 'e' ∨ x = 'E'
      · simp only [hx, if_true]
        generalize (if s.head? = some '+' ∨ s.head? = some '-' then 1 else 0) = sign
        by_cases hdigits : digitCount (s.drop sign) = 0 <;> simp [hdigits]
      · simp only [hx, if_false, Option.none_or, Cursor.skip_zero]

/-- The fraction takes its point and the digits behind it, or nothing if there
is no point. -/
theorem run_fraction {rest : Cursor → Option α} (hrest : ∀ c, (rest c).isSome) (c : Cursor) :
    fractionPattern.run rest c = rest (c.skip (fractionLength c.after)) := by
  have hdigit : CharClass.digit.contains = Char.isDigit := funext contains_digit
  rw [fractionPattern, run_optional, Pattern.sequence, Pattern.sequence, run_seq, run_just,
    run_star_chars (settlesBehind_of_isSome _ hrest), hdigit, Cursor.skip_skip,
    Cursor.after_skip]
  cases hafter : c.after with
  | nil => rfl
  | cons x s =>
      by_cases hx : x = '.'
      · subst hx
        rw [List.head?_cons, if_pos rfl, List.drop_succ_cons, List.drop_zero]
        exact Option.or_of_isSome (hrest _)
      · have hzero : fractionLength (x :: s) = 0 := by
          unfold fractionLength
          split <;> simp_all
        simp [hx, hzero]

/-- The pattern of numbers takes a number. -/
theorem matchAt_numberPattern (c : Cursor) :
    numberPattern.matchAt c = (number? c.after).map fun found => c.skip found.1 := by
  have hexponent : ∀ c, (exponentPattern.run some c).isSome := by
    intro c
    rw [run_exponent]
    rfl
  have hfraction : ∀ c, (fractionPattern.run (exponentPattern.run some) c).isSome := by
    intro c
    rw [run_fraction hexponent]
    exact hexponent _
  have hminus : ∀ x, (CharClass.single '-').contains x = true → x.isDigit = false := by
    intro x hx
    rw [CharClass.contains_single, beq_iff_eq] at hx
    subst hx
    rfl
  have hbegins : (CharClass.single '-').begins c.after = true ↔ c.after.head? = some '-' := by
    cases c.after <;> simp
  change (optional (chars (.single '-'))).run ((plus (chars .digit)).run
    (fractionPattern.run (exponentPattern.run some))) c = _
  rw [run_sign hminus hfraction, run_digits hfraction, run_fraction hexponent, run_exponent,
    number?]
  simp only [hbegins, Cursor.after_skip, Cursor.skip_skip]
  generalize (if c.after.head? = some '-' then 1 else 0) = sign
  by_cases hdigits : digitCount (c.after.drop sign) = 0 <;> simp [hdigits]

end Json
end JsonTint
