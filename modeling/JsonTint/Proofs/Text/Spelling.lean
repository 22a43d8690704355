import JsonTint.Text.Spelling
import Mathlib.Data.List.Nodup
import Mathlib.Data.List.TakeWhile

/-!
# Names are read from all their spellings

A name is compared with a text after the blanks around the text are gone and its
letters are folded.  Folding stands in for lower case in full: the two agree on
whether a text is all ASCII, and if it is they agree on the text.

Main results:

- Theorem `trim_append`: trimming takes off exactly the blanks around a text.
- Theorem `spellsName_iff`: the spellings of a name are the texts that fold to it.
- Theorem `LowerCase.eq_or_exists`: folding against lower case in full.
- Theorem `find?_name_eq_some_iff`: looking up a name in a table of names.
-/

namespace JsonTint
namespace Text

/-! ## Blanks -/

/-- Trimming takes off exactly the blanks around a text. -/
theorem trim_append {before w behind : List Char} (hbefore : ∀ c ∈ before, isBlank c = true)
    (hw : ∀ c ∈ w, isBlank c = false) (hbehind : ∀ c ∈ behind, isBlank c = true) :
    trim (before ++ (w ++ behind)) = w := by
  have hdrop : ∀ s t : List Char, (∀ c ∈ s, isBlank c = false) → (∀ c ∈ t, isBlank c = true) →
      (s ++ t).dropWhile isBlank = if s = [] then [] else s ++ t := by
    intro s t hs ht
    cases s with
    | nil => simpa [List.dropWhile_eq_nil_iff] using ht
    | cons c s => simp [hs c List.mem_cons_self]
  rw [trim, List.dropWhile_append_of_pos hbefore, hdrop w behind hw hbehind]
  by_cases hnil : w = []
  · rw [if_pos hnil, hnil]
    rfl
  · have hbehind' : ∀ c ∈ behind.reverse, isBlank c = true := by simpa using hbehind
    have hreverse : ∀ c ∈ w.reverse, isBlank c = false := by simpa using hw
    have hw' := hdrop w.reverse [] hreverse (fun c hc => (List.not_mem_nil hc).elim)
    rw [List.append_nil, if_neg (by simpa using hnil)] at hw'
    rw [if_neg hnil, List.reverse_append, List.dropWhile_append_of_pos hbehind', hw',
      List.reverse_reverse]

/-! ## Letters -/

/-- What holds of the first 128 characters holds of all ASCII characters. -/
theorem IsAscii.of_forall_lt {P : Char → Prop} (h : ∀ n < 128, P (Char.ofNat n)) {c : Char}
    (hc : IsAscii c) : P c := by
  have := h c.toNat hc
  rwa [Char.ofNat_toNat] at this

/-- Lower case leaves all characters outside ASCII alone. -/
theorem toLower_of_not_isAscii {c : Char} (hc : ¬ IsAscii c) : c.toLower = c := by
  have hupper : ¬ (c.val ≥ 'A'.val ∧ c.val ≤ 'Z'.val) := by
    rintro ⟨-, hle⟩
    exact hc (Nat.lt_of_le_of_lt (UInt32.le_iff_toNat_le.1 hle) (by decide))
  exact dif_neg hupper

/-- But for the Kelvin sign, folding is lower case. -/
theorem foldChar_of_ne {c : Char} (h : c ≠ '\u212a') : foldChar c = c.toLower :=
  if_neg h

/-- In ASCII, folding is lower case. -/
theorem IsAscii.foldChar_eq {c : Char} (hc : IsAscii c) : foldChar c = c.toLower := by
  apply foldChar_of_ne
  rintro rfl
  exact (by decide : ¬ IsAscii '\u212a') hc

/-- Outside of ASCII only the Kelvin sign is changed. -/
theorem foldChar_of_not_isAscii {c : Char} (hc : ¬ IsAscii c) (hkelvin : c ≠ '\u212a') :
    foldChar c = c := by
  rw [foldChar_of_ne hkelvin, toLower_of_not_isAscii hc]

/-- Changing the case of a letter and changing it back. -/
theorem IsAscii.letterCases {c : Char} (hc : IsAscii c) :
    (c.isLower = true → c.toLower = c ∧ IsAscii c.toUpper ∧ c.toUpper.toLower = c) ∧
      (c.toLower = c ∨ c = c.toLower.toUpper) := by
  refine IsAscii.of_forall_lt (P := fun c =>
    (c.isLower = true → c.toLower = c ∧ IsAscii c.toUpper ∧ c.toUpper.toLower = c) ∧
      (c.toLower = c ∨ c = c.toLower.toUpper)) ?_ hc
  decide +kernel

/-- Letters in lower case are in ASCII. -/
theorem isAscii_of_isLower {c : Char} (h : c.isLower = true) : IsAscii c := by
  change (decide (c.val ≥ 'a'.val) && decide (c.val ≤ 'z'.val)) = true at h
  rw [Bool.and_eq_true, decide_eq_true_eq, decide_eq_true_eq] at h
  exact Nat.lt_of_le_of_lt (UInt32.le_iff_toNat_le.1 h.2) (by decide)

/-- The spellings of a letter are the characters that fold to it. -/
theorem spellsLetter_iff {x y : Char} (hy : y.isLower = true) :
    SpellsLetter x y ↔ foldChar x = y := by
  have hascii := isAscii_of_isLower hy
  rcases hascii.letterCases.1 hy with ⟨hlower, hupper, hcases⟩
  constructor
  · rintro (rfl | rfl | ⟨rfl, rfl⟩)
    · rw [hascii.foldChar_eq, hlower]
    · rw [hupper.foldChar_eq, hcases]
    · rfl
  · rintro rfl
    by_cases hkelvin : x = '\u212a'
    · subst hkelvin
      exact Or.inr (Or.inr ⟨rfl, rfl⟩)
    · rw [foldChar_of_ne hkelvin]
      by_cases hx : IsAscii x
      · rcases hx.letterCases.2 with heq | heq
        · exact Or.inl heq.symm
        · exact Or.inr (Or.inl heq)
      · exact Or.inl (toLower_of_not_isAscii hx).symm

/-- The spellings of a name are the texts that fold to it. -/
theorem spellsName_iff {w : List Char} {name : String}
    (hname : ∀ y ∈ name.toList, y.isLower = true) :
    SpellsName w name ↔ w.map foldChar = name.toList := by
  unfold SpellsName
  generalize name.toList = letters at hname
  induction letters generalizing w with
  | nil => rw [List.forall₂_nil_right_iff, List.map_eq_nil_iff]
  | cons y letters ih =>
      rw [List.forall_mem_cons] at hname
      rw [List.forall₂_cons_right_iff, List.map_eq_cons_iff]
      constructor
      · rintro ⟨x, w, hx, hw, rfl⟩
        exact ⟨x, w, rfl, (spellsLetter_iff hname.1).1 hx, (ih hname.2).1 hw⟩
      · rintro ⟨x, w, rfl, hx, hw⟩
        exact ⟨x, w, (spellsLetter_iff hname.1).2 hx, (ih hname.2).2 hw, rfl⟩

/-! ## Lower case in full -/

/-- Lower case is what folding gives, or neither of the two is all ASCII. -/
theorem LowerCase.eq_or_exists {s t : List Char} (h : LowerCase s t) :
    t = s.map foldChar ∨ (∃ x ∈ t, ¬ IsAscii x) ∧ ∃ x ∈ s.map foldChar, ¬ IsAscii x := by
  induction h with
  | nil => exact Or.inl rfl
  | ascii hc _ ih =>
      rcases ih with rfl | ⟨⟨x, hx, hx'⟩, y, hy, hy'⟩
      · rw [List.map_cons, hc.foldChar_eq]
        exact Or.inl rfl
      · exact Or.inr ⟨⟨x, List.mem_cons_of_mem _ hx, hx'⟩, y, List.mem_cons_of_mem _ hy, hy'⟩
  | kelvin _ ih =>
      rcases ih with rfl | ⟨⟨x, hx, hx'⟩, y, hy, hy'⟩
      · exact Or.inl rfl
      · exact Or.inr ⟨⟨x, List.mem_cons_of_mem _ hx, hx'⟩, y, List.mem_cons_of_mem _ hy, hy'⟩
  | @other c piece s t hc hkelvin hpiece _ _ =>
      rcases hpiece with ⟨x, hx, hx'⟩
      refine Or.inr ⟨⟨x, List.mem_append_left _ hx, hx'⟩, c, ?_, hc⟩
      rw [List.map_cons, foldChar_of_not_isAscii hc hkelvin]
      exact List.mem_cons_self

/-- Folding is one way to form lower case. -/
theorem lowerCase_map_foldChar (s : List Char) : LowerCase s (s.map foldChar) := by
  induction s with
  | nil => exact .nil
  | cons c s ih =>
      by_cases hkelvin : c = '\u212a'
      · subst hkelvin
        exact .kelvin ih
      · by_cases hc : IsAscii c
        · rw [List.map_cons, hc.foldChar_eq]
          exact .ascii hc ih
        · have hother := LowerCase.other hc hkelvin ⟨c, List.mem_singleton_self c, hc⟩ ih
          rwa [List.map_cons, foldChar_of_not_isAscii hc hkelvin]

/-! ## Tables of names -/

/-- In a table without repeated names, what a text finds is what its name stands
for. -/
theorem find?_name_eq_some_iff {α : Type} {names : List (String × α)}
    (hnodup : (names.map (·.1)).Nodup) {t : List Char} {a : α} :
    (names.find? fun entry => entry.1.toList == t).map (·.2) = some a ↔
      ∃ name, (name, a) ∈ names ∧ t = name.toList := by
  constructor
  · intro h
    rcases Option.map_eq_some_iff.1 h with ⟨⟨name, b⟩, hfind, rfl⟩
    have heq := List.find?_some hfind
    exact ⟨name, List.mem_of_find?_eq_some hfind, (beq_iff_eq.1 heq).symm⟩
  · rintro ⟨name, hmem, rfl⟩
    cases hfind : names.find? fun entry => entry.1.toList == name.toList with
    | none => simpa using List.find?_eq_none.1 hfind _ hmem
    | some entry =>
        have heq := List.find?_some hfind
        rw [beq_iff_eq, String.toList_inj] at heq
        rw [Option.map_some, List.inj_on_of_nodup_map hnodup (List.mem_of_find?_eq_some hfind)
          hmem heq]

end Text
end JsonTint
