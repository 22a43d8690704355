import JsonTint.Html.Tags
import JsonTint.Text.Occurrence

/-!
# What the tags of an HTML text say about it

A text that is given as a row of tags and plain texts has the tags of the row.
Since a tag ends at its first bracket, a tag is found exactly where the row has
it.

Main results:

- Theorem `tags_html_append`: the tags of a text are those of its row.
- Theorem `occurrences_bracket`: a tag occurs as often as it is among the tags.
- Theorem `splitFirst?_html_append`: a tag that is not in a row is found behind
  it.
-/

namespace JsonTint
namespace Html

open Text

namespace Markup

@[simp]
theorem html_nil : html [] = [] :=
  rfl

@[simp]
theorem html_cons (m : Markup) (ms : List Markup) : html (m :: ms) = m.render ++ html ms :=
  rfl

@[simp]
theorem html_append (ms ns : List Markup) : html (ms ++ ns) = html ms ++ html ns :=
  List.flatMap_append

@[simp]
theorem tagsOf_nil : tagsOf [] = [] :=
  rfl

@[simp]
theorem tagsOf_text_cons (w : List Char) (ms : List Markup) :
    tagsOf (text w :: ms) = tagsOf ms :=
  rfl

@[simp]
theorem tagsOf_tag_cons (name : List Char) (ms : List Markup) :
    tagsOf (tag name :: ms) = bracket name :: tagsOf ms :=
  rfl

@[simp]
theorem tagsOf_append (ms ns : List Markup) : tagsOf (ms ++ ns) = tagsOf ms ++ tagsOf ns :=
  List.flatMap_append

end Markup

open Markup

/-! ## The tags of a row -/

/-- A tag ends with its first closing bracket. -/
theorem throughClose_append {name : List Char} (h : '>' ∉ name) (s : List Char) :
    throughClose (name ++ '>' :: s) = name ++ ['>'] := by
  induction name with
  | nil => rfl
  | cons c name ih =>
      rw [List.mem_cons, not_or] at h
      rw [List.cons_append, throughClose, if_neg (Ne.symm h.1), ih h.2]
      rfl

/-- A text without less-than signs adds no tag. -/
theorem tags_append_of_not_mem {w : List Char} (h : '<' ∉ w) (s : List Char) :
    tags (w ++ s) = tags s := by
  induction w with
  | nil => rfl
  | cons c w ih =>
      rw [List.mem_cons, not_or] at h
      rw [List.cons_append, tags, if_neg (Ne.symm h.1), ih h.2]

/-- A tag in front is the first of the tags. -/
theorem tags_bracket_append {name : List Char} (hless : '<' ∉ name) (hgreater : '>' ∉ name)
    (s : List Char) : tags (bracket name ++ s) = bracket name :: tags s := by
  have hsplit : bracket name ++ s = '<' :: (name ++ '>' :: s) := by simp [bracket]
  have hrest : tags (name ++ '>' :: s) = tags s := by
    rw [tags_append_of_not_mem hless, tags, if_neg (by decide)]
  rw [hsplit, tags, if_pos rfl, throughClose_append hgreater, hrest]
  rfl

/-- The tags of a text that begins with a row are those of the row and those
behind it. -/
theorem tags_html_append {ms : List Markup} (h : ∀ m ∈ ms, m.IsPlain) (s : List Char) :
    tags (html ms ++ s) = tagsOf ms ++ tags s := by
  induction ms with
  | nil => rfl
  | cons m ms ih =>
      rw [List.forall_mem_cons] at h
      rw [html_cons, List.append_assoc]
      cases m with
      | text w =>
          rw [tagsOf_text_cons, ← ih h.2]
          exact tags_append_of_not_mem h.1 _
      | tag name =>
          rw [tagsOf_tag_cons, List.cons_append, ← ih h.2]
          exact tags_bracket_append h.1.1 h.1.2 _

/-! ## Where a tag is found -/

theorem bracket_ne_nil (name : List Char) : bracket name ≠ [] :=
  List.cons_ne_nil _ _

/-- What is read as the rest of a tag stands at the front of the text. -/
theorem throughClose_prefix (s : List Char) : throughClose s <+: s := by
  induction s with
  | nil => exact List.prefix_rfl
  | cons c s ih =>
      rw [throughClose]
      split
      · exact List.prefix_append [c] s
      · exact List.cons_prefix_cons.2 ⟨rfl, ih⟩

/-- A text begins with a tag exactly if that is the tag at its front. -/
theorem bracket_prefix_iff {name : List Char} (h : '>' ∉ name) (s : List Char) :
    bracket name <+: '<' :: s ↔ '<' :: throughClose s = bracket name := by
  constructor
  · rintro ⟨t, ht⟩
    have hs : s = name ++ '>' :: t := by simpa [bracket] using ht.symm
    rw [hs, throughClose_append h]
    rfl
  · intro heq
    rw [← heq, List.cons_prefix_cons]
    exact ⟨rfl, throughClose_prefix s⟩

/-- A tag occurs as often as it is among the tags of a text. -/
theorem occurrences_bracket {name : List Char} (h : '>' ∉ name) (s : List Char) :
    occurrences (bracket name) s = (tags s).count (bracket name) := by
  induction s with
  | nil => rfl
  | cons c s ih =>
      rw [occurrences, tags, ih]
      by_cases hc : c = '<'
      · subst hc
        rw [if_pos rfl, List.count_cons, Nat.add_comm]
        simp only [List.isPrefixOf_iff_prefix, bracket_prefix_iff h, beq_iff_eq]
      · have hnot : ¬ bracket name <+: c :: s := by
          intro hprefix
          exact hc (List.cons_prefix_cons.1 hprefix).1.symm
        rw [if_neg hc, if_neg (by rwa [List.isPrefixOf_iff_prefix]), Nat.zero_add]

/-- No tag is found in a text without less-than signs. -/
theorem splitFirst?_bracket_append {w : List Char} (h : '<' ∉ w) (name s : List Char) :
    splitFirst? (bracket name) (w ++ s) =
      (splitFirst? (bracket name) s).map fun parts => (w ++ parts.1, parts.2) :=
  splitFirst?_append_of_not_mem h s

/-- A tag that is not in a row is found behind the row. -/
theorem splitFirst?_html_append {ms : List Markup} (hplain : ∀ m ∈ ms, m.IsPlain)
    {name : List Char} (hname : '>' ∉ name) (hnot : tag name ∉ ms) (s : List Char) :
    splitFirst? (bracket name) (html ms ++ (bracket name ++ s)) = some (html ms, s) := by
  induction ms with
  | nil => exact splitFirst?_append (bracket_ne_nil name) s
  | cons m ms ih =>
      rw [List.forall_mem_cons] at hplain
      rw [List.mem_cons, not_or] at hnot
      have hrest := ih hplain.2 hnot.2
      rw [html_cons, List.append_assoc]
      cases m with
      | text w =>
          rw [render, splitFirst?_bracket_append hplain.1, hrest]
          rfl
      | tag other =>
          have hne : other ≠ name := by
            rintro rfl
            exact hnot.1 rfl
          have hsplit : (tag other).render ++ (html ms ++ (bracket name ++ s)) =
              '<' :: ((other ++ ['>']) ++ (html ms ++ (bracket name ++ s))) := rfl
          -- Both tags end at their first bracket, so neither begins with the other.
          have hfront : ¬ bracket name <+:
              '<' :: ((other ++ ['>']) ++ (html ms ++ (bracket name ++ s))) := by
            rw [bracket_prefix_iff hname, List.append_assoc, List.singleton_append,
              throughClose_append hplain.1.2]
            intro heq
            exact hne (List.append_cancel_right (List.cons.inj heq).2)
          have hinside : '<' ∉ other ++ ['>'] := by
            simpa using hplain.1.1
          rw [hsplit, splitFirst?_cons_of_not_prefix hfront, splitFirst?_bracket_append hinside,
            hrest]
          rfl

end Html
end JsonTint
