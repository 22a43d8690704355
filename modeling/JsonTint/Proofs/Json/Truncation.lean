import Mathlib.Data.List.TakeWhile
import JsonTint.Proofs.Json.Spelling

/-!
# Lexemes of a text that is cut short

A lexeme that lies in front of the cut is the same without what the cut takes
away, although the scanner looks further than the lexeme reaches: for the colon
of a key, for the digits of an exponent, for a neighbour of a keyword.  A lexeme
that was not there can only come up if the cut leaves nothing but a keyword.

Main results:

- Theorems `quotedBody?_take` and `keyTail?_take`: what of a quoted text is left.
- Theorems `quoted?_take` and `number?_take`: a quoted text or number in front of
  the cut is left as it is.
- Theorem `lexeme?_take`: so is any lexeme.
- Theorem `lexeme?_take_eq_none`: where there was none, none comes up.
-/

namespace JsonTint
namespace Json

variable {s : List Char} {k : Nat}

/-! ## Lengths up to the cut -/

theorem filter_le_of_le {n : Nat} (h : n ≤ k) : (some n).filter (· ≤ k) = some n :=
  Option.filter_some_pos (decide_eq_true h)

theorem filter_le_of_lt {n : Nat} (h : k < n) : (some n).filter (· ≤ k) = none :=
  Option.filter_some_neg (by simpa using h)

/-- The cut may be counted from behind the first `m` characters. -/
theorem filter_le_map_add (o : Option Nat) {m : Nat} (h : m ≤ k) :
    (o.map (m + ·)).filter (· ≤ k) = (o.filter (· ≤ k - m)).map (m + ·) := by
  cases o with
  | none => rfl
  | some n =>
      rw [Option.map_some]
      by_cases hn : n ≤ k - m
      · rw [filter_le_of_le hn, filter_le_of_le (by omega), Option.map_some]
      · rw [filter_le_of_lt (by omega), filter_le_of_lt (by omega), Option.map_none]

/-- What begins behind the cut ends behind it. -/
theorem filter_le_map_add_of_lt (o : Option Nat) {m : Nat} (h : k < m) :
    (o.map (m + ·)).filter (· ≤ k) = none := by
  cases o with
  | none => rfl
  | some n => rw [Option.map_some, filter_le_of_lt (by omega)]

/-- A run of characters is left up to the cut. -/
theorem length_takeWhile_take (p : Char → Bool) (s : List Char) (k : Nat) :
    ((s.take k).takeWhile p).length = min k (s.takeWhile p).length := by
  rw [← List.take_takeWhile, List.length_take]

/-! ## Quoted texts -/

/-- The inside of a quoted text has at least its closing quote. -/
theorem quotedBody?_pos {n : Nat} (h : quotedBody? s = some n) : 0 < n := by
  rcases exists_of_quotedBody? h with ⟨body, rest, -, rfl⟩
  exact Nat.succ_pos _

/-- With an escape in front, a quoted text that has been cut short still ends,
if its end is left. -/
theorem quotedBody?_take_escape (s : List Char) (k : Nat)
    (ih : ∀ (t : List Char) (k : Nat), t.length ≤ s.length →
      quotedBody? (t.take k) = (quotedBody? t).filter (· ≤ k)) :
    quotedBody? ('\\' :: s.take k) = (quotedBody? ('\\' :: s)).filter (· ≤ k + 1) := by
  rcases s with - | ⟨x, s⟩
  · simp [quotedBody?]
  by_cases hx : x = 'u'
  · subst hx
    rcases k with - | k
    · rw [List.take_zero, quotedBody?_unicode]
      split
      · exact (filter_le_map_add_of_lt _ (by omega)).symm
      · rfl
    rw [List.take_succ_cons, quotedBody?_unicode, quotedBody?_unicode, length_takeWhile_take,
      List.drop_take, ih _ _ (by simp; omega)]
    by_cases hdigits : 4 ≤ (s.takeWhile isHexDigit).length
    · rw [if_pos hdigits]
      by_cases hk : 4 ≤ k
      · rw [if_pos (Nat.le_min.2 ⟨hk, hdigits⟩), filter_le_map_add _ (by omega)]
        rfl
      · rw [if_neg (by omega), filter_le_map_add_of_lt _ (by omega)]
    · rw [if_neg hdigits, if_neg (by omega)]
      rfl
  · rw [quotedBody?_escape hx]
    rcases k with - | k
    · exact (filter_le_map_add_of_lt _ (by omega)).symm
    rw [List.take_succ_cons, quotedBody?_escape hx, ih _ _ (Nat.le_succ _),
      filter_le_map_add _ (by omega)]
    rfl

/-- A quoted text that has been cut short still ends, if its end is left. -/
theorem quotedBody?_take (s : List Char) (k : Nat) :
    quotedBody? (s.take k) = (quotedBody? s).filter (· ≤ k) := by
  generalize hlength : s.length = l
  induction l using Nat.strongRecOn generalizing s k with
  | ind l ih =>
      rcases k with - | k
      · cases hbody : quotedBody? s with
        | none => rfl
        | some n =>
            rw [filter_le_of_lt (quotedBody?_pos hbody)]
            rfl
      rcases s with - | ⟨x, s⟩
      · rfl
      rw [List.length_cons] at hlength
      rw [List.take_succ_cons]
      by_cases hquote : x = '"'
      · subst hquote
        rw [quotedBody?_quote, quotedBody?_quote, filter_le_of_le (Nat.succ_pos k)]
      by_cases hplain : x ≠ '\\'
      · rw [quotedBody?_plain hquote hplain, quotedBody?_plain hquote hplain,
          ih s.length (by omega) s k rfl, filter_le_map_add _ (by omega), Nat.add_sub_cancel]
      · rw [not_ne_iff.1 hplain]
        exact quotedBody?_take_escape s k fun t k ht => ih t.length (by omega) t k rfl

/-- The tail of a key is left if its colon is. -/
theorem keyTail?_take (s : List Char) (k : Nat) :
    keyTail? (s.take k) = (keyTail? s).filter (· ≤ k) := by
  rw [keyTail?_eq s, keyTail?, length_takeWhile_take]
  by_cases hk : (s.takeWhile isGap).length < k
  · rw [Nat.min_eq_right (Nat.le_of_lt hk), List.drop_take, drop_length_takeWhile,
      List.head?_take, if_neg (Nat.sub_ne_zero_of_lt hk)]
    split
    · rw [filter_le_of_le (Nat.succ_le_of_lt hk)]
    · rfl
  · rw [Nat.min_eq_left (Nat.le_of_not_lt hk), List.drop_take, Nat.sub_self, List.take_zero,
      List.head?_nil, if_neg (Option.some_ne_none ':').symm]
    split
    · rw [filter_le_of_lt (Nat.lt_succ_of_le (Nat.le_of_not_lt hk))]
    · rfl

/-- A quoted text in front of the cut is left as it is. -/
theorem quoted?_take {n : Nat} {cls : TokenClass} (h : quoted? s = some (n, cls)) (hk : n ≤ k) :
    quoted? (s.take k) = some (n, cls) := by
  unfold quoted? at h
  split at h
  · rename_i s
    split at h
    · contradiction
    rename_i m hbody
    -- The cut lies behind the closing quote, whether or not it is a key.
    have hm : 1 + m ≤ k := by
      split at h <;> cases h <;> omega
    rcases k with - | k
    · omega
    have hleft : quotedBody? (s.take k) = some m := by
      rw [quotedBody?_take, hbody, filter_le_of_le (by omega)]
    rw [List.take_succ_cons, quoted?, hleft]
    simp only [List.drop_take, keyTail?_take]
    cases htail : keyTail? (s.drop m) with
    | none =>
        rw [htail] at h
        exact h
    | some l =>
        rw [htail] at h
        cases h
        rw [filter_le_of_le (by omega)]
  · contradiction

/-- A quote that is not closed is not closed in front of the cut. -/
theorem quoted?_take_eq_none (h : quoted? s = none) : quoted? (s.take k) = none := by
  rcases k with - | k
  · rfl
  rcases s with - | ⟨x, s⟩
  · rfl
  by_cases hx : x = '"'
  · subst hx
    have hbody : quotedBody? s = none := by
      cases hbody : quotedBody? s with
      | none => rfl
      | some n =>
          rw [quoted?, hbody] at h
          cases htail : keyTail? (s.drop n) <;> simp [htail] at h
    rw [List.take_succ_cons, quoted?, quotedBody?_take, hbody]
    rfl
  · exact quoted?_eq_none (by simpa using hx)

/-! ## Numbers -/

/-- Of a row of digits those in front of the cut are left. -/
theorem digitCount_take (s : List Char) (k : Nat) :
    digitCount (s.take k) = min k (digitCount s) :=
  length_takeWhile_take Char.isDigit s k

/-- A sign is left unless nothing is. -/
theorem signLength_take (isSign : Char → Bool) (s : List Char) (hk : 0 < k) :
    signLength isSign (s.take k) = signLength isSign s := by
  rw [signLength, signLength, List.head?_take, if_neg (Nat.ne_of_gt hk)]

/-- A fraction in front of the cut is left as it is. -/
theorem fractionLength_take (h : fractionLength s ≤ k) :
    fractionLength (s.take k) = fractionLength s := by
  rcases Nat.eq_zero_or_pos k with rfl | hk
  · rw [Nat.le_zero.1 h]
    rfl
  rw [fractionLength_eq] at h
  rw [fractionLength_eq, fractionLength_eq, List.head?_take, if_neg (Nat.ne_of_gt hk),
    List.drop_take, digitCount_take]
  split at h <;> rename_i hpoint
  · rw [if_pos hpoint, if_pos hpoint, Nat.min_eq_right (by omega)]
  · rw [if_neg hpoint, if_neg hpoint]

/-- So is an exponent, though the scanner looks further for its digits. -/
theorem exponentLength_take (h : exponentLength s ≤ k) :
    exponentLength (s.take k) = exponentLength s := by
  rcases Nat.eq_zero_or_pos k with rfl | hk
  · rw [Nat.le_zero.1 h]
    rfl
  have hshort := exponentLength_eq (s.take k)
  have hwhole := exponentLength_eq s
  rw [List.head?_take, if_neg (Nat.ne_of_gt hk)] at hshort
  by_cases hletter : s.head? = some 'e' ∨ s.head? = some 'E'
  · rw [if_pos hletter] at hshort hwhole
    extract_lets sign' digits' at hshort
    extract_lets sign digits at hwhole
    rcases Nat.lt_or_ge 1 k with hone | hone
    · have hsign : sign' = sign := by
        simp only [sign', sign, List.drop_take]
        exact signLength_take _ _ (Nat.sub_pos_of_lt hone)
      have hcount : digits' = min (k - (1 + sign)) digits := by
        simp only [digits', digits, hsign, List.drop_take, digitCount_take]
      rw [hwhole] at h
      rw [hshort, hwhole, hcount, hsign]
      split at h <;> rename_i hdigits
      · simp [hdigits]
      · rw [Nat.min_eq_right (by omega)]
    · -- The letter is all that is left, and it had no digits behind it.
      have hcount : digits' = 0 := by
        simp only [digits']
        rw [List.drop_eq_nil_of_le (by rw [List.length_take]; omega)]
        rfl
      rw [hshort, if_pos hcount]
      rw [hwhole] at h ⊢
      split at h <;> rename_i hdigits
      · rw [if_pos hdigits]
      · omega
  · rw [hshort, hwhole, if_neg hletter, if_neg hletter]

/-- A number begins with a minus sign or a digit. -/
theorem exists_of_number? {n : Nat} {cls : TokenClass} (h : number? s = some (n, cls)) :
    ∃ c t, s = c :: t ∧ (c = '-' ∨ c.isDigit = true) := by
  cases s with
  | nil => contradiction
  | cons c t =>
      refine ⟨c, t, rfl, ?_⟩
      by_cases hminus : c = '-'
      · exact Or.inl hminus
      · cases hdigit : c.isDigit with
        | true => exact Or.inr rfl
        | false =>
            rw [number?_eq_none hminus hdigit] at h
            contradiction

/-- A number in front of the cut is left as it is. -/
theorem number?_take {n : Nat} {cls : TokenClass} (h : number? s = some (n, cls)) (hk : n ≤ k) :
    number? (s.take k) = some (n, cls) := by
  rw [number?_eq] at h
  extract_lets sign digits whole fraction exponent at h
  split at h
  · contradiction
  rename_i hdigits
  cases h
  have hsign : signLength (· == '-') (s.take k) = sign := signLength_take _ s (by omega)
  have hcount : digitCount ((s.drop sign).take (k - sign)) = digits := by
    rw [digitCount_take, Nat.min_eq_right (by omega)]
  have hwhole : sign + digits = whole := rfl
  have hfraction : fractionLength ((s.drop whole).take (k - whole)) = fraction :=
    fractionLength_take (by omega)
  have hexponent : exponentLength ((s.drop (whole + fraction)).take (k - (whole + fraction))) =
      exponent :=
    exponentLength_take (by omega)
  rw [number?_eq]
  simp only [hsign, List.drop_take, hcount, if_neg hdigits, hwhole, hfraction, hexponent]

/-- A text is no number if it has no digit behind the sign. -/
theorem number?_eq_none_iff (s : List Char) :
    number? s = none ↔ digitCount (s.drop (signLength (· == '-') s)) = 0 := by
  rw [number?_eq]
  extract_lets sign digits whole fraction exponent
  split <;> simpa

/-- A text that is no number is none in front of the cut. -/
theorem number?_take_eq_none (h : number? s = none) : number? (s.take k) = none := by
  rcases Nat.eq_zero_or_pos k with rfl | hk
  · rfl
  rw [number?_eq_none_iff] at h ⊢
  rw [signLength_take _ s hk, List.drop_take, digitCount_take, h, Nat.min_zero]

/-! ## Keywords -/

/-- A word in front of the cut is left, and nothing comes up behind it. -/
theorem isWordAhead_take {word : String} {previous : Option Char}
    (h : isWordAhead word previous s = true) (hk : word.length ≤ k) :
    isWordAhead word previous (s.take k) = true := by
  rcases isWordAhead_iff.1 h with ⟨rest, rfl, hprevious, hrest⟩
  refine isWordAhead_iff.2 ⟨rest.take (k - word.length), ?_, hprevious, ?_⟩
  · rw [List.take_append, String.length_toList, List.take_of_length_le]
    rwa [String.length_toList]
  · rw [List.head?_take]
    split
    · rfl
    · exact hrest

/-- A word that is left was there before, unless it is all that is left. -/
theorem isWordAhead_of_take {word : String} {previous : Option Char}
    (h : isWordAhead word previous (s.take k) = true) (hne : s.take k ≠ word.toList) :
    isWordAhead word previous s = true := by
  rcases isWordAhead_iff.1 h with ⟨rest, htake, hprevious, hrest⟩
  have hs : s = word.toList ++ (rest ++ s.drop k) := by
    rw [← List.append_assoc, ← htake, List.take_append_drop]
  refine isWordAhead_iff.2 ⟨_, hs, hprevious, ?_⟩
  cases rest with
  | nil => exact (hne (by simpa using htake)).elim
  | cons c rest => exact hrest

/-! ## Lexemes -/

/-- A lexeme in front of the cut is left as it is. -/
theorem lexeme?_take {previous : Option Char} {n : Nat} {cls : TokenClass}
    (h : lexeme? previous s = some (n, cls)) (hk : n ≤ k) :
    lexeme? previous (s.take k) = some (n, cls) := by
  rw [lexeme?_eq_some_iff] at h ⊢
  rcases h with hquoted | ⟨hquoted, hkeyword | ⟨hkeyword, hnumber⟩⟩
  · exact Or.inl (quoted?_take hquoted hk)
  · rcases exists_of_keyword? hkeyword with ⟨word, hword, hahead, rfl, rfl⟩
    refine Or.inr ⟨quoted?_take_eq_none hquoted, Or.inl ?_⟩
    exact keyword?_of_isWordAhead hword (isWordAhead_take hahead hk)
  · refine Or.inr ⟨quoted?_take_eq_none hquoted, Or.inr ⟨?_, number?_take hnumber hk⟩⟩
    -- What is a number begins with no letter, whatever is left behind it.
    rcases exists_of_number? hnumber with ⟨c, t, rfl, hc⟩
    rcases k with - | k
    · rfl
    apply keyword?_eq_none
    rintro (rfl | rfl | rfl) <;> rcases hc with hc | hc <;> contradiction

/-- Where no lexeme was, none comes up in front of the cut, unless a keyword is
all that is left. -/
theorem lexeme?_take_eq_none {previous : Option Char} (h : lexeme? previous s = none)
    (hword : ∀ word ∈ keywords, s.take k ≠ word.toList) :
    lexeme? previous (s.take k) = none := by
  rw [lexeme?_eq_none_iff] at h ⊢
  rcases h with ⟨hquoted, hkeyword, hnumber⟩
  refine ⟨quoted?_take_eq_none hquoted, ?_, number?_take_eq_none hnumber⟩
  rw [Option.eq_none_iff_forall_ne_some]
  rintro ⟨n, cls⟩ hsome
  rcases exists_of_keyword? hsome with ⟨word, hmem, hahead, -⟩
  have hthere := isWordAhead_of_take hahead (hword word hmem)
  rw [keyword?_of_isWordAhead hmem hthere] at hkeyword
  contradiction

end Json
end JsonTint
