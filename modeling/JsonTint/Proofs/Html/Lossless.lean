import JsonTint.Proofs.Html.Unescape
import JsonTint.Proofs.Segment.Wrap
import JsonTint.Proofs.Tokenizer.Tiling

/-!
# Highlighting loses nothing

An escaped text holds no angle brackets, so the only tags of a highlighted text
are those that stand around its tokens.  Deleting them gives the escaped text,
and that gives the text.

Main results:

- Theorem `fragment_highlightText`: a highlighted text is a row of runs, some of
  them in the tags of a class.
- Theorem `stripTags_highlightText`: without its tags it is the escaped text.
- Theorem `highlightWith_lossless`: both at once, the way back to the text, and
  that different texts are highlighted differently.
-/

namespace JsonTint
namespace Html

open Segment Text

/-! ## Runs -/

theorem isRun_nil : IsRun [] := by
  simp [IsRun]

/-- Two texts are runs exactly if they are one together. -/
theorem isRun_append {v w : List Char} : IsRun (v ++ w) ↔ IsRun v ∧ IsRun w := by
  simp only [IsRun, List.mem_append, not_or]
  exact and_and_and_comm

/-- What a character is escaped to holds no angle bracket. -/
theorem isRun_escapeChar (c : Char) : IsRun (escapeChar c) := by
  cases hc : isSpecial c with
  | true =>
      have hall : ∀ entity ∈ entities, '<' ∉ entity ∧ '>' ∉ entity := by decide
      exact hall _ (escapeChar_of_isSpecial hc)
  | false =>
      rw [escapeChar_of_not_isSpecial hc, IsRun, List.mem_singleton, List.mem_singleton]
      constructor <;> (rintro rfl; contradiction)

/-- An escaped text holds no angle bracket. -/
theorem isRun_escapeText (s : List Char) : IsRun (escapeText s) := by
  induction s with
  | nil => exact isRun_nil
  | cons c s ih =>
      rw [escapeText_cons, isRun_append]
      exact ⟨isRun_escapeChar c, ih⟩

/-- The segments of a text without angle brackets hold none. -/
theorem isRun_of_mem {ps : List Segment} (h : IsRun (join ps)) : ∀ p ∈ ps, IsRun p.text := by
  induction ps with
  | nil => simp
  | cons p ps ih =>
      rw [join_cons, isRun_append] at h
      exact List.forall_mem_cons.2 ⟨h.1, ih h.2⟩

/-- The segments of an escaped text hold no angle bracket. -/
theorem isRun_of_mem_segments (t : Tokenizer) (s : List Char) :
    ∀ p ∈ t.segments (escapeText s), IsRun p.text := by
  apply isRun_of_mem
  rw [t.join_segments]
  exact isRun_escapeText s

/-! ## Fragments -/

/-- A row of runs and of tokens that are not empty is a fragment. -/
theorem fragment_flatMap_renderSegment {ps : List Segment} (hrun : ∀ p ∈ ps, IsRun p.text)
    (hne : ∀ cls, token cls [] ∉ ps) : Fragment (ps.flatMap renderSegment) := by
  induction ps with
  | nil => exact .nil
  | cons p ps ih =>
      rw [List.forall_mem_cons] at hrun
      have hrest := ih hrun.2 fun cls h => hne cls (List.mem_cons_of_mem p h)
      rw [List.flatMap_cons]
      cases p with
      | gap w => exact .run hrun.1 hrest
      | token cls w =>
          have hw : w ≠ [] := by
            rintro rfl
            exact hne cls List.mem_cons_self
          exact .span hw hrun.1 hrest

/-- A highlighted text is a row of runs, some of them in the tags of a class. -/
theorem fragment_highlightText (t : Tokenizer) (s : List Char) :
    Fragment (highlightText t s) :=
  fragment_flatMap_renderSegment (isRun_of_mem_segments t s)
    (t.token_nil_not_mem_segments (escapeText s))

/-! ## Deleting the tags -/

/-- A closing tag begins with a slash behind its bracket. -/
theorem closeTag_eq : closeTag = '<' :: '/' :: closeTag.drop 2 := by
  decide

/-- An opening tag begins with a letter behind its bracket. -/
theorem openTagStart_eq : openTagStart = '<' :: 's' :: openTagStart.drop 2 := by
  decide

/-- An opening tag is the same for all classes, but for the name. -/
theorem openTag_eq (cls : TokenClass) :
    openTag cls = openTagStart ++ (cls.name.toList ++ openTagEnd) :=
  List.append_assoc ..

/-- Every tag begins with an angle bracket. -/
theorem piecesBeginWith_tagLength? : PiecesBeginWith '<' tagLength? := by
  intro c s hc
  have hne : ('<' == c) = false := beq_eq_false_iff_ne.2 (Ne.symm hc)
  have hclose : closeTag.isPrefixOf (c :: s) = false := by
    rw [closeTag_eq, List.isPrefixOf_cons_cons, hne, Bool.false_and]
  have hopen : openTagStart.isPrefixOf (c :: s) = false := by
    rw [openTagStart_eq, List.isPrefixOf_cons_cons, hne, Bool.false_and]
  rw [tagLength?, hclose, hopen]
  rfl

/-- The tag that closes a token is found. -/
theorem isPiece_closeTag : IsPiece tagLength? closeTag := by
  refine ⟨by decide, fun s => ?_⟩
  rw [tagLength?, if_pos (List.isPrefixOf_iff_prefix.2 (List.prefix_append closeTag s))]

/-- The name in a tag goes up to the end of the tag. -/
theorem takeWhile_isNameLetter (cls : TokenClass) (s : List Char) :
    (cls.name.toList ++ (openTagEnd ++ s)).takeWhile isNameLetter = cls.name.toList := by
  have hletters : cls.name.toList.all isNameLetter = true := by
    cases cls <;> decide
  have hend : (openTagEnd ++ s).takeWhile isNameLetter = [] := rfl
  rw [List.takeWhile_append_of_pos (List.all_eq_true.1 hletters), hend, List.append_nil]

/-- The tag that opens a token of a class is found as a whole. -/
theorem isPiece_openTag (cls : TokenClass) : IsPiece tagLength? (openTag cls) := by
  refine ⟨by cases cls <;> decide, fun s => ?_⟩
  have hclose : closeTag.isPrefixOf (openTag cls ++ s) = false := by
    rw [openTag_eq, openTagStart_eq, closeTag_eq]
    rfl
  have hopen : openTagStart.isPrefixOf (openTag cls ++ s) = true := by
    rw [List.isPrefixOf_iff_prefix, openTag_eq, List.append_assoc]
    exact List.prefix_append _ _
  have hbehind : (openTag cls ++ s).drop openTagStart.length =
      cls.name.toList ++ (openTagEnd ++ s) := by
    rw [openTag_eq, List.append_assoc, List.drop_left, List.append_assoc]
  have hfound : cls.name.toList ≠ [] ∧ openTagEnd.isPrefixOf (openTagEnd ++ s) = true := by
    constructor
    · cases cls <;> decide
    · exact List.isPrefixOf_iff_prefix.2 (List.prefix_append _ _)
  have hlength : (openTag cls).length =
      openTagStart.length + cls.name.toList.length + openTagEnd.length := by
    rw [openTag_eq, List.length_append, List.length_append, Nat.add_assoc]
  simp only [tagLength?, hclose, hopen, hbehind, takeWhile_isNameLetter, List.drop_left,
    if_pos hfound, hlength, Bool.false_eq_true, if_false, if_true]

/-- Tokens are written between tags. -/
theorem wraps_renderSegment : Wraps '<' tagLength? renderSegment where
  begins := piecesBeginWith_tagLength?
  gap _ := rfl
  token cls := ⟨openTag cls, closeTag, isPiece_openTag cls, isPiece_closeTag,
    fun s => List.append_assoc (openTag cls) s closeTag⟩

/-- A highlighted text without its tags is the escaped text. -/
theorem stripTags_highlightText (t : Tokenizer) (s : List Char) :
    stripTags (highlightText t s) = escapeText s := by
  have hrun : '<' ∉ join (t.segments (escapeText s)) := by
    rw [t.join_segments]
    exact (isRun_escapeText s).1
  rw [highlightText, stripTags, wraps_renderSegment.replacePieces_flatMap hrun, t.join_segments]

/-- Highlighting loses nothing and adds no markup but its own: the result is a
row of runs, some of them in the tags of a class; without the tags it is the
escaped text, which holds no angle bracket; replacing the entities of that gives
the text, so no two texts are highlighted alike. -/
theorem highlightWith_lossless (t : Tokenizer) :
    (∀ s : String,
      Fragment (highlightWith t s).toList ∧
        stripTags (highlightWith t s).toList = (escape s).toList ∧
        IsRun (escape s).toList ∧
        unescape (stripTags (highlightWith t s).toList) = s.toList) ∧
      Function.Injective (highlightWith t) := by
  have hstrip (s : String) : stripTags (highlightWith t s).toList = escapeText s.toList := by
    rw [highlightWith, String.toList_ofList, stripTags_highlightText]
  have hback (s : String) : unescape (stripTags (highlightWith t s).toList) = s.toList := by
    rw [hstrip, unescape_escapeText]
  refine ⟨fun s => ⟨?_, ?_, ?_, hback s⟩, ?_⟩
  · rw [highlightWith, String.toList_ofList]
    exact fragment_highlightText t s.toList
  · rw [hstrip, escape, String.toList_ofList]
  · rw [escape, String.toList_ofList]
    exact isRun_escapeText s.toList
  · intro s s' h
    have hlist := congrArg (fun html : String => unescape (stripTags html.toList)) h
    simp only [hback] at hlist
    exact String.toList_injective hlist

end Html
end JsonTint
