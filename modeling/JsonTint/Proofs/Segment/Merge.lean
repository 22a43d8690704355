import JsonTint.Segment

/-!
# Rows of segments with their gaps joined

A text can be split into segments in many ways, since a gap can be split
further.  Cutting the text at the tokens of a row joins the gaps again, so two
rows that join to the same one stand for the same tokens.

Main results:

- Theorem `cutFrom_tokensFrom`: cutting a text at the tokens of a row of
  segments gives the row with its gaps joined.
- Theorem `tokensFrom_merge`: joining gaps moves no token.
- Theorem `merge_map`: joining gaps and changing every segment may be swapped.
- Theorem `map_text_tokensFrom`: each token of a row has the text of its
  segment.
-/

namespace JsonTint
namespace Segment

open Text

/-! ## The text of a row -/

@[simp]
theorem join_nil : join [] = [] :=
  rfl

@[simp]
theorem join_cons (p : Segment) (ps : List Segment) : join (p :: ps) = p.text ++ join ps :=
  rfl

@[simp]
theorem join_append (ps qs : List Segment) : join (ps ++ qs) = join ps ++ join qs :=
  List.flatMap_append

/-- Changing the text of every segment changes the text of the row. -/
theorem join_map_mapText {f : List Char → List Char} (hf : ∀ s t, f (s ++ t) = f s ++ f t)
    (ps : List Segment) : join (ps.map (mapText f)) = f (join ps) := by
  induction ps with
  | nil =>
      have hnil : f [] = [] := by simpa using hf [] []
      exact hnil.symm
  | cons p ps ih =>
      have hp : (mapText f p).text = f p.text := by cases p <;> rfl
      rw [List.map_cons, join_cons, join_cons, hf, hp, ih]

/-! ## Joining gaps -/

/-- The row behind the gap `g`, with all neighbouring gaps joined and a gap,
which may be empty, before, between and behind the tokens. -/
def merge : List Char → List Segment → List Segment
  | g, [] => [gap g]
  | g, gap s :: ps => merge (g ++ s) ps
  | g, token cls s :: ps => gap g :: token cls s :: merge [] ps

/-- Cutting a text at the tokens of a row gives the row with its gaps joined. -/
theorem cutFrom_tokensFrom (last : Nat) (g : List Char) (ps : List Segment) :
    cutFrom last (g ++ join ps) (tokensFrom (last + byteLength g) ps) = merge g ps := by
  induction ps generalizing last g with
  | nil => simp [tokensFrom, cutFrom, merge]
  | cons p ps ih =>
      cases p with
      | gap s =>
          have h := ih last (g ++ s)
          rw [byteLength_append, ← Nat.add_assoc, List.append_assoc] at h
          exact h
      | token cls s =>
          have h := ih (last + byteLength g + byteLength s) []
          rw [byteLength_nil, Nat.add_zero, List.nil_append] at h
          simp only [tokensFrom, cutFrom, join_cons, text, merge, Nat.add_sub_cancel_left,
            takeBytes_append, dropBytes_append, h]

/-- Joining gaps does not change the text. -/
theorem join_merge (g : List Char) (ps : List Segment) : join (merge g ps) = g ++ join ps := by
  induction ps generalizing g with
  | nil => simp [merge, text]
  | cons p ps ih =>
      cases p with
      | gap s => simp [merge, ih, text]
      | token cls s => simp [merge, ih, text]

/-- Joining gaps moves no token. -/
theorem tokensFrom_merge (last : Nat) (g : List Char) (ps : List Segment) :
    tokensFrom last (merge g ps) = tokensFrom (last + byteLength g) ps := by
  induction ps generalizing last g with
  | nil => rfl
  | cons p ps ih =>
      cases p with
      | gap s => simp [merge, tokensFrom, ih, Nat.add_assoc]
      | token cls s => simp [merge, tokensFrom, ih]

/-- Joining gaps and changing the text of every segment may be swapped, if the
change goes through the text piece by piece. -/
theorem merge_map {f : List Char → List Char} (hf : ∀ s t, f (s ++ t) = f s ++ f t)
    (g : List Char) (ps : List Segment) :
    merge (f g) (ps.map (mapText f)) = (merge g ps).map (mapText f) := by
  have hnil : f [] = [] := by simpa using hf [] []
  induction ps generalizing g with
  | nil => rfl
  | cons p ps ih =>
      cases p with
      | gap s => simp only [List.map_cons, mapText, merge, ← hf, ih]
      | token cls s =>
          have h := ih []
          rw [hnil] at h
          simp only [List.map_cons, mapText, merge, h]

/-- What is written for a row, gap by gap and token by token, does not depend
on how its gaps are split. -/
theorem flatMap_merge {α : Type} {f : Segment → List α}
    (hf : ∀ s t, f (gap (s ++ t)) = f (gap s) ++ f (gap t)) (g : List Char)
    (ps : List Segment) :
    (merge g ps).flatMap f = f (gap g) ++ ps.flatMap f := by
  have hnil : f (gap []) = [] := by simpa using hf [] []
  induction ps generalizing g with
  | nil => simp [merge]
  | cons p ps ih =>
      cases p with
      | gap s => simp [merge, ih, hf]
      | token cls s => simp [merge, ih, hnil]

/-! ## The class and text of each token -/

/-- The class and the text of a token segment. -/
def asToken? : Segment → Option (TokenClass × List Char)
  | gap _ => none
  | token cls s => some (cls, s)

/-- Changing the texts of the segments changes those of the tokens, and no
class. -/
theorem filterMap_asToken?_map_mapText (f : List Char → List Char) (ps : List Segment) :
    (ps.map (mapText f)).filterMap asToken? =
      (ps.filterMap asToken?).map fun found => (found.1, f found.2) := by
  induction ps with
  | nil => rfl
  | cons p ps ih =>
      cases p with
      | gap s => exact ih
      | token cls s => exact congrArg ((cls, f s) :: ·) ih

/-- Each token of a row has the class and the text of its segment. -/
theorem map_text_tokensFrom (g : List Char) (ps : List Segment) :
    (tokensFrom (byteLength g) ps).map (fun t => (t.cls, t.text (g ++ join ps))) =
      ps.filterMap asToken? := by
  induction ps generalizing g with
  | nil => rfl
  | cons p ps ih =>
      have h := ih (g ++ p.text)
      rw [byteLength_append, List.append_assoc] at h
      cases p with
      | gap s => exact h
      | token cls s =>
          have htext : Token.text ⟨byteLength g, byteLength g + byteLength s, cls⟩
              (g ++ (s ++ join ps)) = s := slice_append g s (join ps)
          simp only [tokensFrom, join_cons, text, List.map_cons, List.filterMap_cons, asToken?,
            htext]
          exact congrArg _ h

/-- The classes of the tokens of a row. -/
def tokenClasses (ps : List Segment) : List TokenClass :=
  ps.filterMap fun p => (asToken? p).map Prod.fst

@[simp]
theorem tokenClasses_nil : tokenClasses [] = [] :=
  rfl

@[simp]
theorem tokenClasses_gap_cons (w : List Char) (ps : List Segment) :
    tokenClasses (gap w :: ps) = tokenClasses ps :=
  rfl

@[simp]
theorem tokenClasses_token_cons (cls : TokenClass) (s : List Char) (ps : List Segment) :
    tokenClasses (token cls s :: ps) = cls :: tokenClasses ps :=
  rfl

@[simp]
theorem tokenClasses_append (ps qs : List Segment) :
    tokenClasses (ps ++ qs) = tokenClasses ps ++ tokenClasses qs :=
  List.filterMap_append

/-- Each token of a row has the class of its segment. -/
theorem map_cls_tokensFrom (last : Nat) (ps : List Segment) :
    (tokensFrom last ps).map Token.cls = tokenClasses ps := by
  induction ps generalizing last with
  | nil => rfl
  | cons p ps ih =>
      cases p with
      | gap w => exact ih _
      | token cls s => exact congrArg (cls :: ·) (ih _)

/-- A token of a row stands behind the text of the segments before it. -/
theorem exists_of_mem_tokensFrom {last : Nat} {ps : List Segment} {t : Token}
    (h : t ∈ tokensFrom last ps) :
    ∃ before s after, ps = before ++ token t.cls s :: after ∧
      t.start = last + byteLength (join before) ∧
      t.stop = last + byteLength (join before ++ s) := by
  induction ps generalizing last with
  | nil => simp [tokensFrom] at h
  | cons p ps ih =>
      cases p with
      | gap g =>
          rcases ih h with ⟨before, s, after, rfl, hstart, hstop⟩
          refine ⟨gap g :: before, s, after, rfl, ?_, ?_⟩
          · simp [hstart, text, Nat.add_assoc]
          · simp [hstop, text, Nat.add_assoc]
      | token cls w =>
          rw [tokensFrom, List.mem_cons] at h
          rcases h with rfl | h
          · exact ⟨[], w, ps, rfl, by simp, by simp⟩
          · rcases ih h with ⟨before, s, after, rfl, hstart, hstop⟩
            refine ⟨token cls w :: before, s, after, rfl, ?_, ?_⟩
            · simp [hstart, text, Nat.add_assoc]
            · simp [hstop, text, Nat.add_assoc]

end Segment
end JsonTint
