import JsonTint.Json.Scan
import JsonTint.Rule.Basic
import Mathlib.Data.List.TakeWhile

/-!
# The shapes of JSON lexemes

What the functions that look for a lexeme at the front of a text say about the
text: how far the lexeme reaches and what its last character is.

Main results:

- Theorem `quotedBody?_eq`: a quoted text is read unit by unit.
- Theorems `quotedBody?_append` and `keyTail?_append` with their converses
  `exists_of_quotedBody?` and `exists_of_keyTail?`: where a quoted text and the
  tail of a key end.
- Theorems `quoted?_spec`, `keyword?_spec` and `number?_spec`: a lexeme is a
  non-empty beginning of the text, and its own characters tell its class.
- Theorems `exists_of_quoted?`, `isWordAhead_iff` and `getLast?_of_number?`: how a
  lexeme ends.
-/

namespace JsonTint
namespace Json

/-! ## Units of a quoted text -/

/-- The length of the unit at the front of the inside of a quoted text. -/
def unitLength? : List Char → Option Nat
  | [] => none
  | '\\' :: 'u' :: a :: b :: c :: d :: _ =>
    if [a, b, c, d].all isHexDigit then some 6 else none
  | '\\' :: x :: _ => if x = 'u' then none else some 2
  | x :: _ => if x = '\\' ∨ x = '"' then none else some 1

theorem unitLength?_quote (s : List Char) : unitLength? ('"' :: s) = none :=
  rfl

/-- A unit is not empty and lies in the text. -/
theorem unitLength?_pos {s : List Char} {n : Nat} (h : unitLength? s = some n) :
    0 < n ∧ n ≤ s.length := by
  unfold unitLength? at h
  split at h
  · contradiction
  all_goals
    simp only [Option.ite_none_right_eq_some, Option.ite_none_left_eq_some,
      Option.some.injEq] at h
    rcases h with ⟨-, rfl⟩
    simp

/-- A quoted text ends at a quote, or goes on behind a unit. -/
theorem quotedBody?_eq (s : List Char) :
    quotedBody? s =
      if s.head? = some '"' then some 1
      else (unitLength? s).bind fun n => (quotedBody? (s.drop n)).map (n + ·) := by
  fun_cases unitLength? s with
  | case1 => rfl
  | case2 a b c d s hhex => simp [quotedBody?, hhex]
  | case3 a b c d s hhex => simp [quotedBody?, hhex]
  | case4 s hshape =>
      rw [quotedBody?]
      · simp
      · simpa using hshape
  | case5 x s hshape hx =>
      rw [quotedBody?]
      · simp [hx]
      · simpa using hshape
  | case6 x s _ hescape hx =>
      rcases hx with rfl | rfl
      · cases s with
        | nil => rfl
        | cons y s => exact (hescape y s rfl rfl).elim
      · rfl
  | case7 x s _ hescape hx =>
      rw [not_or] at hx
      rw [quotedBody?]
      · simp [hx]
      all_goals simp [hx]

/-- A quoted text ends with the first quote that no unit takes. -/
@[simp]
theorem quotedBody?_quote (s : List Char) : quotedBody? ('"' :: s) = some 1 :=
  rfl

/-- A plain character is a unit. -/
theorem quotedBody?_plain {x : Char} (hquote : x ≠ '"') (hbackslash : x ≠ '\\')
    (s : List Char) : quotedBody? (x :: s) = (quotedBody? s).map (1 + ·) := by
  rw [quotedBody?]
  · rw [if_neg hbackslash]
  all_goals simp [hquote, hbackslash]

/-- Plain characters in a row are units. -/
theorem quotedBody?_append {w : List Char} (hw : ∀ x ∈ w, x ≠ '"' ∧ x ≠ '\\')
    (s : List Char) : quotedBody? (w ++ s) = (quotedBody? s).map (w.length + ·) := by
  induction w with
  | nil => simp
  | cons x w ih =>
      rw [List.forall_mem_cons] at hw
      rw [List.cons_append, quotedBody?_plain hw.1.1 hw.1.2, ih hw.2, Option.map_map]
      congr 1
      funext n
      simp only [Function.comp_apply, List.length_cons]
      omega

/-- A backslash and another character are a unit. -/
theorem quotedBody?_escape {x : Char} (hx : x ≠ 'u') (s : List Char) :
    quotedBody? ('\\' :: x :: s) = (quotedBody? s).map (2 + ·) := by
  rw [quotedBody?]
  · rw [if_neg hx]
  · simp [hx]

/-- Four characters in a row have a property if the run of those that have it is
that long. -/
theorem four_le_length_takeWhile (p : Char → Bool) (a b c d : Char) (s : List Char) :
    4 ≤ ((a :: b :: c :: d :: s).takeWhile p).length ↔ [a, b, c, d].all p = true := by
  by_cases ha : p a = true <;> by_cases hb : p b = true <;> by_cases hc : p c = true <;>
    by_cases hd : p d = true <;> simp [ha, hb, hc, hd]

/-- An escape by a number is a unit if it has four digits. -/
theorem quotedBody?_unicode (s : List Char) :
    quotedBody? ('\\' :: 'u' :: s) =
      if 4 ≤ (s.takeWhile isHexDigit).length then (quotedBody? (s.drop 4)).map (6 + ·)
      else none := by
  match s with
  | a :: b :: c :: d :: s =>
      simp only [quotedBody?, four_le_length_takeWhile, List.drop_succ_cons, List.drop_zero]
  | [] | [_] | [_, _] | [_, _, _] =>
      rw [if_neg]
      · simp [quotedBody?]
      · intro h
        have hle := Nat.le_trans h (List.takeWhile_prefix isHexDigit).length_le
        simp at hle

/-- A quoted text ends with a quote. -/
theorem exists_of_quotedBody? {s : List Char} {n : Nat} (h : quotedBody? s = some n) :
    ∃ body rest, s = body ++ '"' :: rest ∧ n = body.length + 1 := by
  generalize hlength : s.length = k
  induction k using Nat.strongRecOn generalizing s n with
  | ind k ih =>
      rw [quotedBody?_eq] at h
      split at h <;> rename_i hquote
      · rcases List.head?_eq_some_iff.1 hquote with ⟨rest, rfl⟩
        cases h
        exact ⟨[], rest, rfl, rfl⟩
      · rcases Option.bind_eq_some_iff.1 h with ⟨m, hunit, hrest⟩
        rcases Option.map_eq_some_iff.1 hrest with ⟨l, hbody, rfl⟩
        rcases unitLength?_pos hunit with ⟨hpos, hle⟩
        have hlt : (s.drop m).length < k := by
          rw [List.length_drop]
          omega
        rcases ih _ hlt hbody rfl with ⟨body, rest, hdrop, rfl⟩
        refine ⟨s.take m ++ body, rest, ?_, ?_⟩
        · rw [List.append_assoc, ← hdrop, List.take_append_drop]
        · rw [List.length_append, List.length_take, Nat.min_eq_left hle, Nat.add_assoc]

/-! ## Keys -/

@[simp]
theorem isGap_colon : isGap ':' = false := by
  decide

theorem drop_length_takeWhile {α : Type} (p : α → Bool) (s : List α) :
    s.drop (s.takeWhile p).length = s.dropWhile p := by
  calc
    s.drop (s.takeWhile p).length =
        (s.takeWhile p ++ s.dropWhile p).drop (s.takeWhile p).length := by
      rw [List.takeWhile_append_dropWhile]
    _ = s.dropWhile p := List.drop_left

/-- The tail of a key is a gap and a colon. -/
theorem keyTail?_eq (s : List Char) :
    keyTail? s =
      if (s.dropWhile isGap).head? = some ':' then some ((s.takeWhile isGap).length + 1)
      else none := by
  rw [keyTail?, drop_length_takeWhile]

/-- The tail of a key ends with a colon. -/
theorem exists_of_keyTail? {s : List Char} {m : Nat} (h : keyTail? s = some m) :
    ∃ gap rest, s = gap ++ ':' :: rest ∧ m = gap.length + 1 := by
  rw [keyTail?_eq] at h
  split at h <;> rename_i hcolon
  · rcases List.head?_eq_some_iff.1 hcolon with ⟨rest, hrest⟩
    cases h
    refine ⟨s.takeWhile isGap, rest, ?_, rfl⟩
    rw [← hrest, List.takeWhile_append_dropWhile]
  · contradiction

/-- A gap is passed on the way to the colon of a key. -/
theorem keyTail?_append {gap : List Char} (hgap : ∀ x ∈ gap, isGap x = true)
    (s : List Char) : keyTail? (gap ++ s) = (keyTail? s).map (gap.length + ·) := by
  rw [keyTail?_eq, keyTail?_eq, List.dropWhile_append_of_pos hgap,
    List.takeWhile_append_of_pos hgap]
  split
  · simp [Nat.add_assoc]
  · rfl

/-! ## Parts of a number -/

/-- A fraction is a point and any number of digits. -/
theorem fractionLength_eq (s : List Char) :
    fractionLength s = if s.head? = some '.' then 1 + digitCount (s.drop 1) else 0 := by
  unfold fractionLength
  split
  · simp
  · rename_i hpoint
    cases s with
    | nil => rfl
    | cons x s =>
        have hx : x ≠ '.' := by
          rintro rfl
          exact hpoint s rfl
        simp [hx]

/-- The length of a sign at the front, or zero. -/
def signLength (isSign : Char → Bool) (s : List Char) : Nat :=
  if s.head?.any isSign then 1 else 0

/-- The signs of an exponent. -/
def isExponentSign (c : Char) : Bool :=
  c == '+' || c == '-'

/-- An exponent is a letter, perhaps a sign, and at least one digit. -/
theorem exponentLength_eq (s : List Char) :
    exponentLength s =
      if s.head? = some 'e' ∨ s.head? = some 'E' then
        let sign := signLength isExponentSign (s.drop 1)
        let digits := digitCount (s.drop (1 + sign))
        if digits = 0 then 0 else 1 + sign + digits
      else 0 := by
  have hsign : ∀ t : List Char, t.head?.any isExponentSign = true ↔
      t.head? = some '+' ∨ t.head? = some '-' := by
    intro t
    cases t <;> simp [isExponentSign]
  cases s with
  | nil => rfl
  | cons x s =>
      simp only [exponentLength, signLength, hsign, List.head?_cons, Option.some.injEq,
        List.drop_succ_cons, List.drop_zero, Nat.add_comm 1]

/-- A number is perhaps a minus sign, at least one digit, a fraction and an
exponent. -/
theorem number?_eq (s : List Char) :
    number? s =
      let sign := signLength (· == '-') s
      let digits := digitCount (s.drop sign)
      if digits = 0 then none
      else
        let whole := sign + digits
        let fraction := fractionLength (s.drop whole)
        let exponent := exponentLength (s.drop (whole + fraction))
        some (whole + fraction + exponent, .number) := by
  have hsign : s.head?.any (· == '-') = true ↔ s.head? = some '-' := by
    cases s <;> simp
  simp only [number?, signLength, hsign]

/-! ## What lexemes are -/

/-- A quoted text is a key that ends with its colon, or a string that ends with
its closing quote. -/
theorem exists_of_quoted? {s : List Char} {n : Nat} {cls : TokenClass}
    (h : quoted? s = some (n, cls)) :
    ∃ w last, s.take n = w ++ [last] ∧
      (last = ':' ∧ cls = .key ∨ last = '"' ∧ cls = .string) := by
  unfold quoted? at h
  split at h
  · rename_i s
    split at h
    · contradiction
    · rename_i k hbody
      rcases exists_of_quotedBody? hbody with ⟨body, rest, rfl, rfl⟩
      have hdrop : (body ++ '"' :: rest).drop (body.length + 1) = rest := by simp
      rw [hdrop] at h
      split at h <;> rename_i htail
      · rcases exists_of_keyTail? htail with ⟨gap, rest, rfl, rfl⟩
        cases h
        refine ⟨'"' :: (body ++ '"' :: gap), ':', ?_, Or.inl ⟨rfl, rfl⟩⟩
        have hsplit : '"' :: (body ++ '"' :: (gap ++ ':' :: rest)) =
            ('"' :: (body ++ '"' :: gap) ++ [':']) ++ rest := by simp
        rw [hsplit, List.take_left' (by simp; omega)]
      · cases h
        refine ⟨'"' :: body, '"', ?_, Or.inr ⟨rfl, rfl⟩⟩
        have hsplit : '"' :: (body ++ '"' :: rest) = ('"' :: body ++ ['"']) ++ rest := by simp
        rw [hsplit, List.take_left' (by simp; omega)]
  · contradiction

/-- A quoted text is not empty, and its last character tells its class. -/
theorem quoted?_spec {s : List Char} {n : Nat} {cls : TokenClass}
    (h : quoted? s = some (n, cls)) :
    0 < n ∧ Rule.classifyQuoted (s.take n) = cls := by
  rcases exists_of_quoted? h with ⟨w, last, htake, hlast⟩
  constructor
  · cases n with
    | zero => simp at htake
    | succ n => exact Nat.succ_pos n
  · rw [htake, Rule.classifyQuoted, List.getLast?_concat]
    rcases hlast with ⟨rfl, rfl⟩ | ⟨rfl, rfl⟩
    · rfl
    · rfl

/-- A word is ahead if the text begins with it between characters that are not
word characters. -/
theorem isWordAhead_iff {word : String} {previous : Option Char} {s : List Char} :
    isWordAhead word previous s = true ↔
      ∃ rest, s = word.toList ++ rest ∧ previous.any Assertion.isWordChar = false ∧
        rest.head?.any Assertion.isWordChar = false := by
  simp only [isWordAhead, Bool.and_eq_true, Bool.not_eq_true', List.isPrefixOf_iff_prefix]
  constructor
  · rintro ⟨⟨⟨rest, rfl⟩, hprevious⟩, hrest⟩
    rw [List.drop_left' (String.length_toList ..)] at hrest
    exact ⟨rest, rfl, hprevious, hrest⟩
  · rintro ⟨rest, rfl, hprevious, hrest⟩
    rw [List.drop_left' (String.length_toList ..)]
    exact ⟨⟨List.prefix_append .., hprevious⟩, hrest⟩

/-- A word stands at the front of the text. -/
theorem eq_of_isWordAhead {word : String} {previous : Option Char} {s : List Char}
    (h : isWordAhead word previous s = true) : s.take word.length = word.toList := by
  rcases isWordAhead_iff.1 h with ⟨rest, rfl, -⟩
  rw [List.take_left' (String.length_toList ..)]

/-- The words that are keywords. -/
def keywords : List String :=
  ["true", "false", "null"]

/-- A keyword is one of three words. -/
theorem exists_of_keyword? {previous : Option Char} {s : List Char} {n : Nat}
    {cls : TokenClass} (h : keyword? previous s = some (n, cls)) :
    ∃ word ∈ keywords, isWordAhead word previous s = true ∧
      n = word.length ∧ Rule.classifyKeyword word.toList = cls := by
  unfold keyword? at h
  split at h <;> rename_i htrue
  · cases h
    exact ⟨"true", by decide, htrue, rfl, rfl⟩
  · split at h <;> rename_i hfalse
    · cases h
      exact ⟨"false", by decide, hfalse, rfl, rfl⟩
    · split at h <;> rename_i hnull
      · cases h
        exact ⟨"null", by decide, hnull, rfl, rfl⟩
      · contradiction

/-- A keyword is not empty, and its characters tell its class. -/
theorem keyword?_spec {previous : Option Char} {s : List Char} {n : Nat} {cls : TokenClass}
    (h : keyword? previous s = some (n, cls)) :
    0 < n ∧ Rule.classifyKeyword (s.take n) = cls := by
  rcases exists_of_keyword? h with ⟨word, hword, hahead, rfl, hclass⟩
  have hpos : ∀ word ∈ keywords, 0 < word.length := by decide
  rw [eq_of_isWordAhead hahead]
  exact ⟨hpos word hword, hclass⟩

/-- A number is not empty. -/
theorem number?_spec {s : List Char} {n : Nat} {cls : TokenClass}
    (h : number? s = some (n, cls)) : 0 < n ∧ cls = .number := by
  rw [number?_eq] at h
  extract_lets sign digits whole fraction exponent at h
  split at h <;> rename_i hdigits
  · contradiction
  · cases h
    exact ⟨by omega, rfl⟩

/-! ## Which lexeme is taken -/

section

variable {previous : Option Char} {s : List Char}

/-- Quoted texts come before keywords, and keywords before numbers. -/
theorem lexeme?_eq_or :
    lexeme? previous s = (quoted? s).or ((keyword? previous s).or (number? s)) := by
  rw [lexeme?]
  cases quoted? s with
  | some found => rfl
  | none => cases keyword? previous s <;> rfl

/-- Which of the three kinds of lexemes is found. -/
theorem lexeme?_eq_some_iff {found : Nat × TokenClass} :
    lexeme? previous s = some found ↔
      quoted? s = some found ∨ quoted? s = none ∧
        (keyword? previous s = some found ∨
          keyword? previous s = none ∧ number? s = some found) := by
  rw [lexeme?_eq_or, Option.or_eq_some_iff, Option.or_eq_some_iff]

/-- No lexeme is found where none of the three kinds is. -/
theorem lexeme?_eq_none_iff :
    lexeme? previous s = none ↔
      quoted? s = none ∧ keyword? previous s = none ∧ number? s = none := by
  rw [lexeme?_eq_or, Option.or_eq_none_iff, Option.or_eq_none_iff]

/-- A lexeme is not empty. -/
theorem lexeme?_pos {n : Nat} {cls : TokenClass} (h : lexeme? previous s = some (n, cls)) :
    0 < n := by
  rcases lexeme?_eq_some_iff.1 h with hquoted | ⟨-, hkeyword | ⟨-, hnumber⟩⟩
  · exact (quoted?_spec hquoted).1
  · exact (keyword?_spec hkeyword).1
  · exact (number?_spec hnumber).1

end

/-! ## How a number ends -/

/-- The characters that a number ends with. -/
def endsNumber (c : Char) : Bool :=
  c.isDigit || c == '.'

/-- The last of two pieces decides how they end. -/
theorem any_getLast?_append {p : Char → Bool} (u : List Char) {v : List Char}
    (h : v.getLast?.any p = true) : (u ++ v).getLast?.any p = true := by
  rw [List.getLast?_append]
  cases hlast : v.getLast? with
  | none =>
      rw [hlast] at h
      contradiction
  | some c => rwa [hlast] at h

theorem any_endsNumber_of_isDigit {o : Option Char} (h : o.any Char.isDigit = true) :
    o.any endsNumber = true := by
  cases o with
  | none => contradiction
  | some c =>
      have hdigit : c.isDigit = true := h
      simp [endsNumber, hdigit]

/-- Digits at the front end with a digit. -/
theorem getLast?_take_digitCount {s : List Char} (h : digitCount s ≠ 0) :
    (s.take (digitCount s)).getLast?.any Char.isDigit = true := by
  have htake : s.take (digitCount s) = s.takeWhile Char.isDigit :=
    (List.prefix_iff_eq_take.1 (List.takeWhile_prefix Char.isDigit)).symm
  rw [htake]
  cases hlast : (s.takeWhile Char.isDigit).getLast? with
  | none =>
      rw [List.getLast?_eq_none_iff] at hlast
      simp [digitCount, hlast] at h
  | some c =>
      have hdigit : c.isDigit = true := List.mem_takeWhile_imp (List.mem_of_getLast? hlast)
      exact hdigit

/-- A fraction ends with a digit, or is a point. -/
theorem getLast?_take_fractionLength {s : List Char} (h : fractionLength s ≠ 0) :
    (s.take (fractionLength s)).getLast?.any endsNumber = true := by
  rw [fractionLength_eq] at h ⊢
  split at h <;> rename_i hpoint
  · rcases List.head?_eq_some_iff.1 hpoint with ⟨t, rfl⟩
    rw [if_pos hpoint, List.take_add]
    by_cases hdigits : digitCount t = 0
    · simp [hdigits, endsNumber]
    · exact any_getLast?_append _ (any_endsNumber_of_isDigit (getLast?_take_digitCount hdigits))
  · contradiction

/-- An exponent ends with a digit. -/
theorem getLast?_take_exponentLength {s : List Char} (h : exponentLength s ≠ 0) :
    (s.take (exponentLength s)).getLast?.any Char.isDigit = true := by
  have hlength := exponentLength_eq s
  split at hlength
  · extract_lets sign digits at hlength
    split at hlength <;> rename_i hdigits
    · contradiction
    · rw [hlength, List.take_add]
      exact any_getLast?_append _ (getLast?_take_digitCount hdigits)
  · contradiction

/-- A number ends with a digit or with a point. -/
theorem getLast?_of_number? {s : List Char} {n : Nat} {cls : TokenClass}
    (h : number? s = some (n, cls)) : (s.take n).getLast?.any endsNumber = true := by
  rw [number?_eq] at h
  extract_lets sign digits whole fraction exponent at h
  split at h <;> rename_i hdigits
  · contradiction
  cases h
  have hwhole : (s.take whole).getLast?.any endsNumber = true := by
    rw [List.take_add]
    exact any_getLast?_append _ (any_endsNumber_of_isDigit (getLast?_take_digitCount hdigits))
  have hfraction : (s.take (whole + fraction)).getLast?.any endsNumber = true := by
    by_cases hzero : fraction = 0
    · rwa [hzero]
    · rw [List.take_add]
      exact any_getLast?_append _ (getLast?_take_fractionLength hzero)
  by_cases hzero : exponent = 0
  · rwa [hzero]
  · rw [List.take_add]
    exact any_getLast?_append _ (any_endsNumber_of_isDigit (getLast?_take_exponentLength hzero))

/-! ## Where no lexeme begins -/

/-- A quoted text begins with a quote. -/
theorem quoted?_eq_none {s : List Char} (h : s.head? ≠ some '"') : quoted? s = none := by
  unfold quoted?
  split <;> simp_all

/-- A word begins with its first letter and behind no word character. -/
theorem isWordAhead_eq_false {word : String} {previous : Option Char} {c : Char} {s : List Char}
    (hne : word.toList ≠ [])
    (h : word.toList.head? = some c → previous.any Assertion.isWordChar = true) :
    isWordAhead word previous (c :: s) = false := by
  rw [isWordAhead]
  cases hword : word.toList with
  | nil => exact (hne hword).elim
  | cons x w =>
      by_cases hx : x = c
      · subst hx
        rw [h (by rw [hword]; rfl)]
        simp
      · simp [List.isPrefixOf_cons_cons, hx]

/-- A keyword begins with one of three letters, and not behind a word character. -/
theorem keyword?_eq_none {previous : Option Char} {c : Char} {s : List Char}
    (h : c = 't' ∨ c = 'f' ∨ c = 'n' → previous.any Assertion.isWordChar = true) :
    keyword? previous (c :: s) = none := by
  have htrue : isWordAhead "true" previous (c :: s) = false := by
    apply isWordAhead_eq_false (by decide)
    intro hc
    exact h (Or.inl (Option.some.inj hc).symm)
  have hfalse : isWordAhead "false" previous (c :: s) = false := by
    apply isWordAhead_eq_false (by decide)
    intro hc
    exact h (Or.inr (Or.inl (Option.some.inj hc).symm))
  have hnull : isWordAhead "null" previous (c :: s) = false := by
    apply isWordAhead_eq_false (by decide)
    intro hc
    exact h (Or.inr (Or.inr (Option.some.inj hc).symm))
  rw [keyword?, htrue, hfalse, hnull]
  rfl

/-- A number begins with a digit or a minus sign. -/
theorem number?_eq_none {c : Char} {s : List Char} (hminus : c ≠ '-')
    (hdigit : c.isDigit = false) : number? (c :: s) = none := by
  have hsign : signLength (· == '-') (c :: s) = 0 := by
    simp [signLength, hminus]
  have hdigits : digitCount (c :: s) = 0 := by
    simp [digitCount, hdigit]
  simp [number?_eq, hsign, hdigits]

/-- No lexeme begins at a character that is none of their first characters. -/
theorem lexeme?_eq_none {previous : Option Char} {c : Char} {s : List Char}
    (hquote : c ≠ '"') (hminus : c ≠ '-') (hdigit : c.isDigit = false)
    (hkeyword : c = 't' ∨ c = 'f' ∨ c = 'n' → previous.any Assertion.isWordChar = true) :
    lexeme? previous (c :: s) = none := by
  rw [lexeme?, quoted?_eq_none (by simpa using hquote), keyword?_eq_none hkeyword,
    number?_eq_none hminus hdigit]

end Json
end JsonTint
