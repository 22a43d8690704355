import Mathlib.Data.List.TakeWhile
import JsonTint.Html

/-!
# What escaping does to a text

Escaping replaces three characters by entities and leaves the others alone.  It
goes through a text piece by piece, so what it does at the front of a text can
be read off the first character.

Main results:

- Theorem `escapeChar_of_isSpecial` and theorem `escapeChar_of_not_isSpecial`:
  the two kinds of characters.
- Theorem `takeWhile_escapeText` and theorem `dropWhile_escapeText`: a run of
  characters that need no escape is found as before.
- Theorem `isPrefixOf_escapeText`: so is a word.
- Theorem `exists_entity_of_ampersand`: each ampersand of an escaped text begins
  an entity.
- Theorem `not_insideEntity_escapeText`: the escaped form of a beginning of a
  text does not end in an entity.
-/

namespace JsonTint
namespace Html

open Text

/-- The characters that may not stand for themselves. -/
def isSpecial (c : Char) : Bool :=
  c == '&' || c == '<' || c == '>'

/-- The entities that stand for these characters. -/
def entities : List (List Char) :=
  ["&amp;".toList, "&lt;".toList, "&gt;".toList]

@[simp]
theorem escapeText_nil : escapeText [] = [] :=
  rfl

@[simp]
theorem escapeText_cons (c : Char) (s : List Char) :
    escapeText (c :: s) = escapeChar c ++ escapeText s :=
  rfl

/-- Escaping goes through a text piece by piece. -/
@[simp]
theorem escapeText_append (s t : List Char) :
    escapeText (s ++ t) = escapeText s ++ escapeText t :=
  List.flatMap_append

/-! ## Single characters -/

/-- Three characters may not stand for themselves. -/
theorem isSpecial_iff {c : Char} : isSpecial c = true ↔ c = '&' ∨ c = '<' ∨ c = '>' := by
  simp only [isSpecial, Bool.or_eq_true, beq_iff_eq, or_assoc]

/-- A character that may not stand for itself becomes an entity. -/
theorem escapeChar_of_isSpecial {c : Char} (h : isSpecial c = true) :
    escapeChar c ∈ entities := by
  rcases isSpecial_iff.1 h with rfl | rfl | rfl <;> decide

/-- Every other character is left alone. -/
theorem escapeChar_of_not_isSpecial {c : Char} (h : isSpecial c = false) :
    escapeChar c = [c] := by
  have hc : (c ≠ '&' ∧ c ≠ '<') ∧ c ≠ '>' := by
    simpa [isSpecial] using h
  unfold escapeChar
  split <;> simp_all

/-- The first character of what a character becomes. -/
def escapeHead (c : Char) : Char :=
  if isSpecial c then '&' else c

/-- What a character becomes goes on with characters that are neither quotes
nor backslashes. -/
theorem exists_escapeChar_eq_cons (c : Char) :
    ∃ w, escapeChar c = escapeHead c :: w ∧ ∀ x ∈ w, x ≠ '"' ∧ x ≠ '\\' := by
  cases h : isSpecial c with
  | true =>
      have hentities : ∀ entity ∈ entities, entity = '&' :: entity.tail ∧
          entity.tail.all (fun x => x != '"' && x != '\\') = true := by decide
      rcases hentities _ (escapeChar_of_isSpecial h) with ⟨hsplit, hplain⟩
      refine ⟨(escapeChar c).tail, ?_, ?_⟩
      · rw [escapeHead, if_pos h]
        exact hsplit
      · simpa using hplain
  | false => exact ⟨[], by rw [escapeChar_of_not_isSpecial h, escapeHead, h]; rfl, by simp⟩

/-! ## The front of a text -/

/-- The first character of an escaped text is read off the first character. -/
theorem head?_escapeText (s : List Char) : (escapeText s).head? = s.head?.map escapeHead := by
  cases s with
  | nil => rfl
  | cons c s =>
      rcases exists_escapeChar_eq_cons c with ⟨w, hw, -⟩
      simp [hw]

/-- A text of characters that need no escape is left alone. -/
theorem escapeText_eq_self {s : List Char} (h : ∀ c ∈ s, isSpecial c = false) :
    escapeText s = s := by
  induction s with
  | nil => rfl
  | cons c s ih =>
      rw [List.forall_mem_cons] at h
      rw [escapeText_cons, escapeChar_of_not_isSpecial h.1, ih h.2, List.singleton_append]

/-- A property that no character has that may not stand for itself. -/
def Unescaped (p : Char → Bool) : Prop :=
  ∀ c, isSpecial c = true → p c = false

/-- There are three characters to ask about. -/
theorem unescaped_iff {p : Char → Bool} :
    Unescaped p ↔ p '&' = false ∧ p '<' = false ∧ p '>' = false := by
  constructor
  · intro h
    exact ⟨h '&' rfl, h '<' rfl, h '>' rfl⟩
  · rintro ⟨hamp, hlt, hgt⟩ c hc
    rcases isSpecial_iff.1 hc with rfl | rfl | rfl
    · exact hamp
    · exact hlt
    · exact hgt

/-- What a character becomes begins with such a property if the character has
it. -/
theorem Unescaped.escapeHead {p : Char → Bool} (h : Unescaped p) (c : Char) :
    p (escapeHead c) = p c := by
  unfold Html.escapeHead
  split <;> rename_i hc
  · rw [h c hc]
    exact h '&' rfl
  · rfl

/-- What begins an entity has no such property. -/
theorem Unescaped.escapeHead_of_isSpecial {p : Char → Bool} (h : Unescaped p) {c : Char}
    (hc : isSpecial c = true) : p (Html.escapeHead c) = false := by
  rw [h.escapeHead, h c hc]

/-- Escaping keeps such a property of the first character. -/
theorem Unescaped.any_head? {p : Char → Bool} (h : Unescaped p) (s : List Char) :
    (escapeText s).head?.any p = s.head?.any p := by
  rw [head?_escapeText]
  cases s with
  | nil => rfl
  | cons c s => exact h.escapeHead c

/-- To be one given character is such a property, unless that character is
escaped. -/
theorem unescaped_beq {x : Char} (hx : isSpecial x = false) : Unescaped (· == x) := by
  intro c hc
  rw [beq_eq_false_iff_ne]
  rintro rfl
  exact Bool.false_ne_true (hx.symm.trans hc)

/-- What a character becomes begins with another one that needs no escape only
if it is that one. -/
theorem escapeHead_eq_iff {x : Char} (hx : isSpecial x = false) (c : Char) :
    escapeHead c = x ↔ c = x := by
  have h := (unescaped_beq hx).escapeHead c
  rwa [Bool.eq_iff_iff, beq_iff_eq, beq_iff_eq] at h

/-- A character that needs no escape is at the front before and after. -/
theorem head?_escapeText_eq_some_iff {x : Char} (hx : isSpecial x = false) (s : List Char) :
    (escapeText s).head? = some x ↔ s.head? = some x := by
  have h := (unescaped_beq hx).any_head? s
  rw [Bool.eq_iff_iff, Option.any_eq_true, Option.any_eq_true] at h
  simpa using h

/-! ## Runs of characters that need no escape -/

variable {p : Char → Bool} {s : List Char} {m n : Nat}

/-- The run of such characters in front of a text is found as before. -/
theorem takeWhile_escapeText (h : Unescaped p) (s : List Char) :
    (escapeText s).takeWhile p = s.takeWhile p := by
  induction s with
  | nil => rfl
  | cons c s ih =>
      cases hc : isSpecial c with
      | true =>
          rcases exists_escapeChar_eq_cons c with ⟨w, hw, -⟩
          simp [hw, h.escapeHead_of_isSpecial hc, h c hc]
      | false => simp [escapeChar_of_not_isSpecial hc, List.takeWhile_cons, ih]

/-- What follows that run is escaped. -/
theorem dropWhile_escapeText (h : Unescaped p) (s : List Char) :
    (escapeText s).dropWhile p = escapeText (s.dropWhile p) := by
  induction s with
  | nil => rfl
  | cons c s ih =>
      cases hc : isSpecial c with
      | true =>
          rcases exists_escapeChar_eq_cons c with ⟨w, hw, -⟩
          simp [hw, h.escapeHead_of_isSpecial hc, h c hc]
      | false =>
          by_cases hp : p c = true <;> simp [escapeChar_of_not_isSpecial hc, hp, ih]

/-- The first `n` characters of a text are there and need no escape. -/
structure PlainPrefix (n : Nat) (s : List Char) : Prop where
  le_length : n ≤ s.length
  escapeText_take : escapeText (s.take n) = s.take n

theorem plainPrefix_zero (s : List Char) : PlainPrefix 0 s :=
  ⟨Nat.zero_le _, rfl⟩

theorem plainPrefix_of_forall (hn : n ≤ s.length)
    (h : ∀ c ∈ s.take n, isSpecial c = false) : PlainPrefix n s :=
  ⟨hn, escapeText_eq_self h⟩

/-- Characters with such a property need no escape. -/
theorem Unescaped.plainPrefix (h : Unescaped p) (hn : n ≤ (s.takeWhile p).length) :
    PlainPrefix n s := by
  have hprefix := List.takeWhile_prefix (l := s) p
  apply plainPrefix_of_forall (Nat.le_trans hn hprefix.length_le)
  intro c hc
  have hmem : c ∈ s.takeWhile p := by
    rw [List.prefix_iff_eq_take.1 hprefix]
    exact List.take_subset_take_left s hn hc
  have hp := List.mem_takeWhile_imp hmem
  cases hspecial : isSpecial c with
  | true => exact (Bool.false_ne_true ((h c hspecial).symm.trans hp)).elim
  | false => rfl

/-- One character that needs no escape is a plain beginning. -/
theorem plainPrefix_one {x : Char} (hx : isSpecial x = false) (h : s.head? = some x) :
    PlainPrefix 1 s := by
  rcases List.head?_eq_some_iff.1 h with ⟨t, rfl⟩
  refine ⟨by simp, ?_⟩
  simp [escapeChar_of_not_isSpecial hx]

/-- Two plain beginnings one behind the other are one. -/
theorem PlainPrefix.add (hm : PlainPrefix m s) (hn : PlainPrefix n (s.drop m)) :
    PlainPrefix (m + n) s := by
  refine ⟨?_, ?_⟩
  · have hle := hn.le_length
    have := hm.le_length
    rw [List.length_drop] at hle
    omega
  · rw [List.take_add, escapeText_append, hm.escapeText_take, hn.escapeText_take]

/-- Escaping leaves the plain beginning of a text in its place. -/
theorem PlainPrefix.drop_escapeText (h : PlainPrefix n s) :
    (escapeText s).drop n = escapeText (s.drop n) := by
  have hsplit : escapeText s = s.take n ++ escapeText (s.drop n) := by
    rw [← h.escapeText_take, ← escapeText_append, List.take_append_drop]
  rw [hsplit, List.drop_left' (by rw [List.length_take, Nat.min_eq_left h.le_length])]

/-- How long the first `n` characters of a text become. -/
def escapedLength (s : List Char) (n : Nat) : Nat :=
  (escapeText (s.take n)).length

/-- Escaping does not make a plain beginning longer. -/
theorem PlainPrefix.escapedLength_eq (h : PlainPrefix n s) : escapedLength s n = n := by
  rw [escapedLength, h.escapeText_take, List.length_take, Nat.min_eq_left h.le_length]

/-- The escaped form of the first `n` characters is where it should be. -/
theorem take_escapedLength (s : List Char) (n : Nat) :
    (escapeText s).take (escapedLength s n) = escapeText (s.take n) := by
  have hsplit : escapeText s = escapeText (s.take n) ++ escapeText (s.drop n) := by
    rw [← escapeText_append, List.take_append_drop]
  rw [hsplit, escapedLength, List.take_left]

/-- Behind it stands the escaped form of the other characters. -/
theorem drop_escapedLength (s : List Char) (n : Nat) :
    (escapeText s).drop (escapedLength s n) = escapeText (s.drop n) := by
  have hsplit : escapeText s = escapeText (s.take n) ++ escapeText (s.drop n) := by
    rw [← escapeText_append, List.take_append_drop]
  rw [hsplit, escapedLength, List.drop_left]

/-- How long the first characters become can be added up. -/
theorem escapedLength_add (s : List Char) (m n : Nat) :
    escapedLength s (m + n) = escapedLength s m + escapedLength (s.drop m) n := by
  rw [escapedLength, List.take_add, escapeText_append, List.length_append]
  rfl

/-- A length counted from behind the first `k` characters, escaped and as it
was. -/
theorem map_escapedLength_drop (s : List Char) (k : Nat) (found : Option Nat) :
    (found.map (escapedLength (s.drop k))).map (escapedLength s k + ·) =
      (found.map (k + ·)).map (escapedLength s) := by
  rw [Option.map_map, Option.map_map]
  congr 1
  funext n
  exact (escapedLength_add s k n).symm

/-- A word of characters that need no escape is found as before. -/
theorem isPrefixOf_escapeText {word : List Char} (hword : word.any isSpecial = false)
    (s : List Char) : word.isPrefixOf (escapeText s) = word.isPrefixOf s := by
  induction word generalizing s with
  | nil => rfl
  | cons x word ih =>
      rw [List.any_cons, Bool.or_eq_false_iff] at hword
      cases s with
      | nil => rfl
      | cons c s =>
          by_cases hxc : x = c
          · subst hxc
            simp [escapeChar_of_not_isSpecial hword.1, ih hword.2]
          · rcases exists_escapeChar_eq_cons c with ⟨w, hw, -⟩
            have hhead : x ≠ escapeHead c := by
              rw [ne_comm, Ne, escapeHead_eq_iff hword.1]
              exact Ne.symm hxc
            simp only [escapeText_cons, hw, List.cons_append, List.isPrefixOf_cons_cons,
              beq_eq_false_iff_ne.2 hhead, beq_eq_false_iff_ne.2 hxc, Bool.false_and]

/-- A word of characters that need no escape is a plain beginning where it is
found. -/
theorem plainPrefix_of_isPrefixOf {word : List Char} (hword : word.any isSpecial = false)
    (h : word.isPrefixOf s = true) : PlainPrefix word.length s := by
  rcases List.isPrefixOf_iff_prefix.1 h with ⟨t, rfl⟩
  apply plainPrefix_of_forall
  · simp
  · rw [List.take_left]
    simpa using hword

/-! ## Entities in an escaped text -/

/-- No entity is the beginning of another one. -/
theorem entity_eq_of_isPrefix {a b : List Char} (ha : a ∈ entities) (hb : b ∈ entities)
    (h : a <+: b) : a = b := by
  have hall : ∀ a ∈ entities, ∀ b ∈ entities, a.isPrefixOf b = true → a = b := by decide
  exact hall a ha b hb (List.isPrefixOf_iff_prefix.2 h)

/-- An entity begins with its only ampersand. -/
theorem exists_entity_eq_cons {a : List Char} (ha : a ∈ entities) :
    ∃ w, a = '&' :: w ∧ '&' ∉ w := by
  have hall : ∀ a ∈ entities, a = '&' :: a.tail ∧ '&' ∉ a.tail := by decide
  exact ⟨a.tail, hall a ha⟩

/-- What a character becomes has an ampersand in front only. -/
theorem ampersand_not_mem_tail_escapeChar (c : Char) : '&' ∉ (escapeChar c).tail := by
  cases h : isSpecial c with
  | true =>
      rcases exists_entity_eq_cons (escapeChar_of_isSpecial h) with ⟨w, hw, hnot⟩
      rw [hw]
      exact hnot
  | false => simp [escapeChar_of_not_isSpecial h]

/-- Each ampersand of an escaped text begins an entity. -/
theorem exists_entity_of_ampersand {s before w : List Char}
    (h : escapeText s = before ++ '&' :: w) :
    ∃ tail rest, '&' :: tail ∈ entities ∧ w = tail ++ rest := by
  induction s generalizing before with
  | nil => simp at h
  | cons c s ih =>
      rw [escapeText_cons, List.append_eq_append_iff] at h
      rcases h with ⟨x, rfl, hrest⟩ | ⟨x, hchar, hrest⟩
      · exact ih hrest
      · cases x with
        | nil =>
            have hs : escapeText s = [] ++ '&' :: w := hrest.symm
            exact ih hs
        | cons y x =>
            rw [List.cons_append, List.cons.injEq] at hrest
            rcases hrest with ⟨rfl, rfl⟩
            -- What a character becomes has an ampersand in front only.
            cases before with
            | nil =>
                have hc : isSpecial c = true := by
                  cases hspecial : isSpecial c with
                  | true => rfl
                  | false =>
                      rw [escapeChar_of_not_isSpecial hspecial] at hchar
                      cases hchar
                      exact absurd hspecial (by decide)
                have hmem := escapeChar_of_isSpecial hc
                rw [hchar] at hmem
                exact ⟨x, escapeText s, hmem, rfl⟩
            | cons b before =>
                have hnot := ampersand_not_mem_tail_escapeChar c
                simp [hchar] at hnot

/-- The offset lies in an entity of the text, behind its first character and
not behind its last one. -/
def InsideEntity (s : List Char) (offset : Nat) : Prop :=
  ∃ before after, ∃ entity ∈ entities, s = before ++ entity ++ after ∧
    byteLength before < offset ∧ offset < byteLength (before ++ entity)

/-- The escaped form of a beginning of a text does not end in an entity. -/
theorem not_insideEntity_escapeText (u v : List Char) :
    ¬ InsideEntity (escapeText (u ++ v)) (byteLength (escapeText u)) := by
  rintro ⟨before, after, entity, hentity, h, hbehind, hahead⟩
  rw [escapeText_append, List.append_assoc, List.append_eq_append_iff] at h
  rcases h with ⟨x, rfl, -⟩ | ⟨x, hu, hrest⟩
  · rw [byteLength_append] at hbehind
    omega
  · rw [List.append_eq_append_iff] at hrest
    rcases hrest with ⟨y, rfl, -⟩ | ⟨y, hsplit, -⟩
    · rw [hu, ← List.append_assoc, byteLength_append] at hahead
      omega
    · cases x with
      | nil =>
          rw [hu, List.append_nil] at hbehind
          exact Nat.lt_irrefl _ hbehind
      | cons a x =>
          rcases exists_entity_eq_cons hentity with ⟨w, hw, -⟩
          have ha : a = '&' := (List.cons.inj (hsplit.symm.trans hw)).1
          subst ha
          rcases exists_entity_of_ampersand hu with ⟨tail, rest, htail, rfl⟩
          have heq : '&' :: tail = entity := by
            apply entity_eq_of_isPrefix htail hentity
            rw [hsplit]
            exact ⟨rest ++ y, by simp⟩
          have hempty : rest ++ y = [] := by
            have hlength := congrArg List.length (hsplit.symm.trans heq.symm)
            apply List.eq_nil_of_length_eq_zero
            simp at hlength ⊢
            omega
          rw [hu, hsplit, (List.append_eq_nil_iff.1 hempty).2, List.append_nil] at hahead
          exact Nat.lt_irrefl _ hahead

end Html
end JsonTint
