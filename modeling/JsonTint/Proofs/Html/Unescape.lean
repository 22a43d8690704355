import JsonTint.Html.Fragment
import JsonTint.Proofs.Html.Escape
import Mathlib.Data.List.Nodup

/-!
# Replacing entities one kind after the other

Escaping only some of the special characters leaves the others as they are.
Replacing the entity of one character takes it out of the set that is escaped,
so the three replacements lead from the escaped text back to the text.

Main results:

- Theorem `replace_escapeOnly`: replacing the entity of a character takes that
  character out of the escaped set.
- Theorem `unescape_escapeText`: replacing the three entities gives the text
  back.
-/

namespace JsonTint
namespace Html

open Text

/-- A text with some of its special characters escaped. -/
def escapeOnly (chosen : List Char) (s : List Char) : List Char :=
  s.flatMap fun c => if c ∈ chosen then escapeChar c else [c]

variable {chosen : List Char} {c x : Char}

@[simp]
theorem escapeOnly_nil (chosen : List Char) : escapeOnly chosen [] = [] :=
  rfl

/-- A chosen character is escaped. -/
theorem escapeOnly_cons_of_mem (hc : c ∈ chosen) (s : List Char) :
    escapeOnly chosen (c :: s) = escapeChar c ++ escapeOnly chosen s := by
  rw [escapeOnly, List.flatMap_cons, if_pos hc]
  rfl

/-- Any other character is left alone. -/
theorem escapeOnly_cons_of_not_mem (hc : c ∉ chosen) (s : List Char) :
    escapeOnly chosen (c :: s) = c :: escapeOnly chosen s := by
  rw [escapeOnly, List.flatMap_cons, if_neg hc]
  rfl

/-- Escaping no character changes nothing. -/
theorem escapeOnly_nil_left (s : List Char) : escapeOnly [] s = s := by
  induction s with
  | nil => rfl
  | cons c s ih => rw [escapeOnly_cons_of_not_mem List.not_mem_nil, ih]

/-- Escaping all special characters is escaping. -/
theorem escapeOnly_eq_escapeText (h : ∀ c, c ∈ chosen ↔ isSpecial c = true) (s : List Char) :
    escapeOnly chosen s = escapeText s := by
  induction s with
  | nil => rfl
  | cons c s ih =>
      by_cases hc : c ∈ chosen
      · rw [escapeOnly_cons_of_mem hc, ih, escapeText_cons]
      · have hplain : isSpecial c = false := by
          rw [← Bool.not_eq_true, ← h c]
          exact hc
        rw [escapeOnly_cons_of_not_mem hc, ih, escapeText_cons,
          escapeChar_of_not_isSpecial hplain, List.singleton_append]

/-! ## One kind of entity -/

/-- Looking for one entity passes over another one. -/
theorem replace_entity_append {a b : List Char} (ha : a ∈ entities) (hb : b ∈ entities)
    (hne : a ≠ b) (new s : List Char) : replace a new (b ++ s) = b ++ replace a new s := by
  have hnone : pieceLength? a (b ++ s) = none := by
    rw [pieceLength?, if_neg]
    rw [List.isPrefixOf_iff_prefix]
    intro hprefix
    rcases List.prefix_or_prefix_of_prefix hprefix (List.prefix_append b s) with hab | hba
    · exact hne (entity_eq_of_isPrefix ha hb hab)
    · exact hne (entity_eq_of_isPrefix hb ha hba).symm
  rcases exists_entity_eq_cons ha with ⟨v, rfl, -⟩
  rcases exists_entity_eq_cons hb with ⟨w, rfl, hw⟩
  have hcons : replacePieces (pieceLength? ('&' :: v)) new ('&' :: (w ++ s)) =
      '&' :: replacePieces (pieceLength? ('&' :: v)) new (w ++ s) :=
    replacePieces_cons_of_eq_none hnone
  rw [replace, List.cons_append, hcons,
    (piecesBeginWith_pieceLength? '&' v).replacePieces_append hw]
  rfl

/-- The characters that are replaced in turn are those that may not stand for
themselves. -/
theorem mem_specials_iff : c ∈ ['<', '>', '&'] ↔ isSpecial c = true := by
  simp [isSpecial, or_assoc, or_comm, or_left_comm]

/-- Different special characters have different entities. -/
theorem eq_of_escapeChar_eq (hc : isSpecial c = true) (hx : isSpecial x = true)
    (h : escapeChar c = escapeChar x) : c = x := by
  have hnodup : (['<', '>', '&'].map escapeChar).Nodup := by decide
  exact List.inj_on_of_nodup_map hnodup (mem_specials_iff.2 hc) (mem_specials_iff.2 hx) h

/-- Replacing the entity of a character takes it out of the escaped set.  The
ampersand has to be in that set, or a text could hold entities of its own. -/
theorem replace_escapeOnly (hspecial : (x :: chosen).all isSpecial = true)
    (hamp : '&' ∈ x :: chosen) (hx : x ∉ chosen) (s : List Char) :
    replace (escapeChar x) [x] (escapeOnly (x :: chosen) s) = escapeOnly chosen s := by
  rw [List.all_eq_true] at hspecial
  have hentity : ∀ c ∈ x :: chosen, escapeChar c ∈ entities := fun c hc =>
    escapeChar_of_isSpecial (hspecial c hc)
  rcases exists_entity_eq_cons (hentity x List.mem_cons_self) with ⟨w, hw, -⟩
  induction s with
  | nil => exact replacePieces_nil _ _
  | cons c s ih =>
      by_cases hcx : c = x
      · subst hcx
        have hne : escapeChar c ≠ [] := by simp [hw]
        rw [escapeOnly_cons_of_mem List.mem_cons_self, escapeOnly_cons_of_not_mem hx, replace,
          (isPiece_pieceLength? hne).replacePieces_append]
        exact congrArg (c :: ·) ih
      · by_cases hc : c ∈ chosen
        · have hmem : c ∈ x :: chosen := List.mem_cons_of_mem x hc
          have hdifferent : escapeChar x ≠ escapeChar c := fun h =>
            hcx (eq_of_escapeChar_eq (hspecial c hmem) (hspecial x List.mem_cons_self) h.symm)
          rw [escapeOnly_cons_of_mem hmem, escapeOnly_cons_of_mem hc,
            replace_entity_append (hentity x List.mem_cons_self) (hentity c hmem) hdifferent, ih]
        · have hmem : c ∉ x :: chosen := by
            rw [List.mem_cons, not_or]
            exact ⟨hcx, hc⟩
          have hplain : c ≠ '&' := by
            rintro rfl
            exact hmem hamp
          have hbegin := piecesBeginWith_pieceLength? '&' w
          rw [← hw] at hbegin
          rw [escapeOnly_cons_of_not_mem hmem, escapeOnly_cons_of_not_mem hc, replace,
            replacePieces_cons_of_eq_none (hbegin c _ hplain)]
          exact congrArg (c :: ·) ih

/-- Replacing the three entities one after the other gives the text back. -/
theorem unescape_escapeText (s : List Char) : unescape (escapeText s) = s := by
  have hlt : replace (escapeChar '<') ['<'] (escapeOnly ['<', '>', '&'] s) =
      escapeOnly ['>', '&'] s := replace_escapeOnly (by decide) (by decide) (by decide) s
  have hgt : replace (escapeChar '>') ['>'] (escapeOnly ['>', '&'] s) = escapeOnly ['&'] s :=
    replace_escapeOnly (by decide) (by decide) (by decide) s
  have hamp : replace (escapeChar '&') ['&'] (escapeOnly ['&'] s) = escapeOnly [] s :=
    replace_escapeOnly (by decide) (by decide) (by decide) s
  calc
    unescape (escapeText s) = unescape (escapeOnly ['<', '>', '&'] s) := by
      rw [escapeOnly_eq_escapeText fun _ => mem_specials_iff]
    _ = replace (escapeChar '&') ['&'] (replace (escapeChar '>') ['>']
          (escapeOnly ['>', '&'] s)) := by
      rw [← hlt]
      rfl
    _ = replace (escapeChar '&') ['&'] (escapeOnly ['&'] s) := by rw [hgt]
    _ = s := by rw [hamp, escapeOnly_nil_left]

end Html
end JsonTint
