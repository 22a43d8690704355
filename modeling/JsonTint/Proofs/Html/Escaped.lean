import JsonTint.Proofs.Html.Lossless

/-!
# The form of an escaped text

Escaping in a single pass comes to the same as three replacements, as long as the
ampersand is the first: it is not touched again in the entities that are put in
afterwards.  The texts that come about in this way are those without angle
brackets in which each ampersand begins an entity, and on them unescaping can be
undone.

Main results:

- Theorem `replace_char_escapeOnly`: replacing one more character.
- Theorem `escapeInTurn_eq_escapeText`: three replacements are one pass.
- Theorem `exists_escapeText_eq_iff`: which texts are escaped ones.
- Theorem `escape_characterised`: both at once, and the way back.
-/

namespace JsonTint
namespace Html

open Text

variable {chosen u v s : List Char} {c x : Char}

/-- A text with its ampersands replaced first, then the one kind of angle bracket
and then the other. -/
def escapeInTurn (s : List Char) : List Char :=
  replace ['>'] "&gt;".toList (replace ['<'] "&lt;".toList (replace ['&'] "&amp;".toList s))

/-- There are no angle brackets, and each ampersand begins exactly one entity. -/
structure IsEscaped (u : List Char) : Prop where
  run : IsRun u
  entity : ∀ before after, u = before ++ '&' :: after →
    ∃! entity, entity ∈ entities ∧ entity <+: '&' :: after

/-! ## Replacing one character after the other -/

/-- Replacing a character goes on behind what does not hold it. -/
theorem replace_singleton_append {w : List Char} (hw : x ∉ w) (new s : List Char) :
    replace [x] new (w ++ s) = w ++ replace [x] new s :=
  (piecesBeginWith_pieceLength? x []).replacePieces_append hw s

/-- Replacing a character by its entity puts it into the escaped set, unless it
stands in an entity that has been put in before. -/
theorem replace_char_escapeOnly (hx : x ∉ chosen)
    (hentity : (chosen.flatMap escapeChar).contains x = false) (s : List Char) :
    replace [x] (escapeChar x) (escapeOnly chosen s) = escapeOnly (x :: chosen) s := by
  have hnot : ∀ c ∈ chosen, x ∉ escapeChar c := by
    simpa using hentity
  induction s with
  | nil => exact replacePieces_nil _ _
  | cons c s ih =>
      by_cases hcx : c = x
      · subst hcx
        rw [escapeOnly_cons_of_not_mem hx, escapeOnly_cons_of_mem List.mem_cons_self, ← ih]
        exact (isPiece_pieceLength? (List.cons_ne_nil c [])).replacePieces_append _
      · by_cases hc : c ∈ chosen
        · rw [escapeOnly_cons_of_mem hc, escapeOnly_cons_of_mem (List.mem_cons_of_mem x hc),
            replace_singleton_append (hnot c hc), ih]
        · have hmem : c ∉ x :: chosen := by
            rw [List.mem_cons, not_or]
            exact ⟨hcx, hc⟩
          have hplain : x ∉ [c] := by
            rw [List.mem_singleton]
            exact Ne.symm hcx
          rw [escapeOnly_cons_of_not_mem hc, escapeOnly_cons_of_not_mem hmem, ← ih]
          exact replace_singleton_append hplain _ _

/-- Three replacements, the ampersand first, are one pass. -/
theorem escapeInTurn_eq_escapeText (s : List Char) : escapeInTurn s = escapeText s := by
  have hamp : replace ['&'] (escapeChar '&') (escapeOnly [] s) = escapeOnly ['&'] s :=
    replace_char_escapeOnly (by decide) (by decide) s
  have hlt : replace ['<'] (escapeChar '<') (escapeOnly ['&'] s) = escapeOnly ['<', '&'] s :=
    replace_char_escapeOnly (by decide) (by decide) s
  have hgt : replace ['>'] (escapeChar '>') (escapeOnly ['<', '&'] s) =
      escapeOnly ['>', '<', '&'] s :=
    replace_char_escapeOnly (by decide) (by decide) s
  have hspecial : ∀ c, c ∈ ['>', '<', '&'] ↔ isSpecial c = true := by
    simp [isSpecial, or_assoc, or_comm]
  calc
    escapeInTurn s = replace ['>'] (escapeChar '>') (replace ['<'] (escapeChar '<')
        (replace ['&'] (escapeChar '&') (escapeOnly [] s))) := by
      rw [escapeOnly_nil_left]
      rfl
    _ = escapeOnly ['>', '<', '&'] s := by rw [hamp, hlt, hgt]
    _ = escapeText s := escapeOnly_eq_escapeText hspecial s

/-! ## The form -/

/-- An escaped text has the form. -/
theorem isEscaped_escapeText (s : List Char) : IsEscaped (escapeText s) := by
  refine ⟨isRun_escapeText s, fun before after h => ?_⟩
  rcases exists_entity_of_ampersand h with ⟨tail, rest, hmem, rfl⟩
  have hprefix : '&' :: tail <+: '&' :: (tail ++ rest) := List.prefix_append ('&' :: tail) rest
  refine ⟨'&' :: tail, ⟨hmem, hprefix⟩, ?_⟩
  rintro entity ⟨hentity, hfront⟩
  rcases List.prefix_or_prefix_of_prefix hfront hprefix with h | h
  · exact entity_eq_of_isPrefix hentity hmem h
  · exact (entity_eq_of_isPrefix hmem hentity h).symm

/-- What is behind a piece of a text of this form has the form too. -/
theorem IsEscaped.of_append (h : IsEscaped (u ++ v)) : IsEscaped v := by
  refine ⟨(isRun_append.1 h.run).2, fun before after hv => ?_⟩
  subst hv
  exact h.entity (u ++ before) after (List.append_assoc u before _).symm

/-- Each entity stands for a character. -/
theorem exists_escapeChar_of_mem_entities {entity : List Char} (h : entity ∈ entities) :
    ∃ c, escapeChar c = entity := by
  have hmap : entities = ['&', '<', '>'].map escapeChar := rfl
  rw [hmap, List.mem_map] at h
  rcases h with ⟨c, -, hc⟩
  exact ⟨c, hc⟩

/-- A text of this form is the escaped form of some text. -/
theorem IsEscaped.exists_escapeText_eq (h : IsEscaped u) : ∃ s, escapeText s = u := by
  generalize hn : u.length = n
  induction n using Nat.strongRecOn generalizing u with
  | ind n ih =>
      cases u with
      | nil => exact ⟨[], rfl⟩
      | cons c rest =>
          by_cases hc : c = '&'
          · -- The entity at the front stands for a character, and the rest has the form.
            subst hc
            rcases (h.entity [] rest rfl).exists with ⟨entity, hmem, behind, heq⟩
            rcases exists_entity_eq_cons hmem with ⟨w, hw, -⟩
            rcases exists_escapeChar_of_mem_entities hmem with ⟨x, hx⟩
            rw [← heq] at h
            have hlength : behind.length < n := by
              rw [← hn, ← heq, hw, List.length_append, List.length_cons]
              omega
            rcases ih behind.length hlength h.of_append rfl with ⟨s, hs⟩
            exact ⟨x :: s, by rw [escapeText_cons, hx, hs, heq]⟩
          · have hplain : isSpecial c = false := by
              have hrun := h.run
              rw [IsRun, List.mem_cons, List.mem_cons, not_or, not_or] at hrun
              simp [isSpecial, hc, Ne.symm hrun.1.1, Ne.symm hrun.2.1]
            have hlength : rest.length < n := by
              rw [← hn, List.length_cons]
              omega
            have hrest : IsEscaped rest := IsEscaped.of_append (u := [c]) h
            rcases ih rest.length hlength hrest rfl with ⟨s, hs⟩
            exact ⟨c :: s, by rw [escapeText_cons, escapeChar_of_not_isSpecial hplain, hs]; rfl⟩

/-- The escaped texts are those of this form. -/
theorem exists_escapeText_eq_iff : (∃ s, escapeText s = u) ↔ IsEscaped u := by
  constructor
  · rintro ⟨s, rfl⟩
    exact isEscaped_escapeText s
  · exact IsEscaped.exists_escapeText_eq

/-- Replacing the entities of an escaped text can be undone. -/
theorem IsEscaped.escapeText_unescape (h : IsEscaped u) : escapeText (unescape u) = u := by
  rcases h.exists_escapeText_eq with ⟨s, rfl⟩
  rw [unescape_escapeText]

/-- Escaping is replacing the ampersands, then the one kind of angle bracket and
then the other, by their entities.  What comes out has no angle brackets, and each
ampersand in it begins exactly one of the three entities; every text of this form
comes out of escaping what is left when its entities are replaced. -/
theorem escape_characterised :
    (∀ s : String, (escape s).toList = escapeInTurn s.toList ∧ IsEscaped (escape s).toList) ∧
      ∀ u : String, ((∃ s, escape s = u) ↔ IsEscaped u.toList) ∧
        (IsEscaped u.toList → escape (String.ofList (unescape u.toList)) = u) := by
  have htoList (s : String) : (escape s).toList = escapeText s.toList := by
    rw [escape, String.toList_ofList]
  refine ⟨fun s => ?_, fun u => ⟨?_, fun h => ?_⟩⟩
  · rw [htoList, escapeInTurn_eq_escapeText]
    exact ⟨rfl, isEscaped_escapeText s.toList⟩
  · rw [← exists_escapeText_eq_iff]
    constructor
    · rintro ⟨s, rfl⟩
      exact ⟨s.toList, (htoList s).symm⟩
    · rintro ⟨s, hs⟩
      exact ⟨String.ofList s, by rw [escape, String.toList_ofList, hs, String.ofList_toList]⟩
  · rw [escape, String.toList_ofList, h.escapeText_unescape, String.ofList_toList]

/-- The escaped form of an entity is taken back once, not twice. -/
theorem escape_characterised_nested :
    IsEscaped "&amp;lt;".toList ∧ unescape "&amp;lt;".toList = "&lt;".toList ∧
      escape (String.ofList (unescape "&amp;lt;".toList)) = "&amp;lt;" := by
  have hescape : escape "&lt;" = "&amp;lt;" := by decide
  have hform : IsEscaped "&amp;lt;".toList :=
    (escape_characterised.2 "&amp;lt;").1.1 ⟨"&lt;", hescape⟩
  exact ⟨hform, unescape_escapeText "&lt;".toList, (escape_characterised.2 "&amp;lt;").2 hform⟩

end Html
end JsonTint
