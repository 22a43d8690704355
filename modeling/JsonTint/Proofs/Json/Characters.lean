import JsonTint.Json.Grammar
import JsonTint.Proofs.Segment.Merge

/-!
# The characters of JSON texts

The grammar leaves no place for a control character other than those of white
space: inside of quotes it has to be escaped, and everything else is spelled
with ASCII letters, digits and signs.

Main results:

- Theorem `ValueSpelled.isAllowed` and its companions: a spelling has allowed
  characters only.
- Theorem `not_mem_of_textSpelled`: no other character is in a JSON text.
-/

namespace JsonTint
namespace Json

open Segment

/-- Whether a character is white space or no control character. -/
def isAllowed (c : Char) : Bool :=
  isSpace c || 0x20 ≤ c.toNat

/-- A row of segments all of whose characters are allowed. -/
def IsAllowed (ps : List Segment) : Prop :=
  (join ps).all isAllowed = true

/-! ## Kinds of characters -/

/-- Characters of an allowed kind are allowed. -/
theorem all_isAllowed_of_all {p : Char → Bool} (hp : ∀ c, p c = true → isAllowed c = true)
    {s : List Char} (h : s.all p = true) : s.all isAllowed = true :=
  List.all_eq_true.2 fun c hc => hp c (List.all_eq_true.1 h c hc)

/-- White space is allowed. -/
theorem isAllowed_of_isSpace {c : Char} (h : isSpace c = true) : isAllowed c = true := by
  rw [isAllowed, h, Bool.true_or]

/-- A character that is no control character is allowed. -/
theorem isAllowed_of_le {c : Char} (h : 0x20 ≤ c.toNat) : isAllowed c = true := by
  rw [isAllowed, decide_eq_true h, Bool.or_true]

/-- The digits to base 16 are allowed. -/
theorem isAllowed_of_isHexDigit {c : Char} (h : isHexDigit c = true) : isAllowed c = true := by
  apply isAllowed_of_le
  simp only [isHexDigit, Char.isDigit, Bool.or_eq_true, Bool.and_eq_true, decide_eq_true_eq,
    Char.le_def, UInt32.le_iff_toNat_le] at h
  change _ ≤ c.val.toNat
  rcases h with (h | h) | h
  · exact Nat.le_trans (by decide) h.1
  · exact Nat.le_trans (by decide) h.1
  · exact Nat.le_trans (by decide) h.1

/-- The digits to base 10 are allowed. -/
theorem isAllowed_of_isDigit {c : Char} (h : c.isDigit = true) : isAllowed c = true := by
  apply isAllowed_of_isHexDigit
  rw [isHexDigit, h, Bool.true_or, Bool.true_or]

/-! ## Strings and numbers -/

/-- The inside of a spelled string has allowed characters only. -/
theorem StringSpelled.all_isAllowed {units : List UInt16} {s : List Char}
    (h : StringSpelled units s) : s.all isAllowed = true := by
  induction h with
  | nil => rfl
  | plain hcontrol hquote hbackslash hs ih =>
      rw [List.all_cons, isAllowed_of_le hcontrol, ih, Bool.and_self]
  | short hescape hs ih =>
      have hshort : ∀ entry ∈ shortEscapes, isAllowed entry.1 = true := by decide
      rw [List.all_cons, List.all_cons, hshort _ hescape, ih]
      rfl
  | unicode hlength hdigits hs ih =>
      rw [List.cons_append, List.cons_append, List.all_cons, List.all_cons, List.all_append,
        all_isAllowed_of_all (fun _ => isAllowed_of_isHexDigit) hdigits, ih]
      rfl

/-- So has the string with its quotes. -/
theorem StringSpelled.quote_isAllowed {units : List UInt16} {s : List Char}
    (h : StringSpelled units s) : (quote s).all isAllowed = true := by
  rw [quote, List.cons_append, List.all_cons, List.all_append, h.all_isAllowed]
  rfl

/-- A spelled number has allowed characters only. -/
theorem NumberSpelled.all_isAllowed {x : Rat} {s : List Char} (h : NumberSpelled x s) :
    s.all isAllowed = true := by
  have hdigits {w : List Char} (hw : w.all Char.isDigit = true) : w.all isAllowed = true :=
    all_isAllowed_of_all (fun _ => isAllowed_of_isDigit) hw
  cases h with
  | @parts factor exponent sign whole digits fraction tail hsign hwhole hfraction htail =>
      have hsign' : sign.all isAllowed = true := by
        cases hsign <;> rfl
      have hwhole' : whole.all isAllowed = true := by
        cases hwhole with
        | zero => rfl
        | digits hzero hc hs => rw [List.all_cons, isAllowed_of_isDigit hc, hdigits hs]; rfl
      have hfraction' : fraction.all isAllowed = true := by
        cases hfraction with
        | none => rfl
        | digits hne hs => rw [List.all_cons, hdigits hs]; rfl
      have htail' : tail.all isAllowed = true := by
        cases htail with
        | none => rfl
        | digits hletter hexponent hne hs =>
            rw [List.cons_append, List.all_cons, List.all_append, hdigits hs]
            rcases hletter with rfl | rfl <;> cases hexponent <;> rfl
      rw [List.all_append, List.all_append, List.all_append, hsign', hwhole', hfraction', htail']
      rfl

/-! ## Rows of segments -/

theorem isAllowed_nil : IsAllowed [] :=
  rfl

/-- A segment of allowed characters may be put in front. -/
theorem isAllowed_cons {p : Segment} {ps : List Segment} (hp : p.text.all isAllowed = true)
    (h : IsAllowed ps) : IsAllowed (p :: ps) := by
  rw [IsAllowed, join_cons, List.all_append, hp, Bool.true_and]
  exact h

/-- Two rows of allowed characters make up one. -/
theorem isAllowed_append {ps qs : List Segment} (h : IsAllowed ps) (hqs : IsAllowed qs) :
    IsAllowed (ps ++ qs) := by
  rw [IsAllowed, join_append, List.all_append, h, Bool.true_and]
  exact hqs

/-- White space may be put in front. -/
theorem isAllowed_space_cons {w : List Char} (hw : w.all isSpace = true) {ps : List Segment}
    (h : IsAllowed ps) : IsAllowed (gap w :: ps) :=
  isAllowed_cons (all_isAllowed_of_all (fun _ => isAllowed_of_isSpace) hw) h

mutual

/-- A spelled value has allowed characters only. -/
theorem ValueSpelled.isAllowed {v : Value} {ps : List Segment} (h : ValueSpelled v ps) :
    IsAllowed ps :=
  match h with
  | .null => rfl
  | .boolTrue => rfl
  | .boolFalse => rfl
  | .number hnumber => isAllowed_cons hnumber.all_isAllowed isAllowed_nil
  | .string hstring => isAllowed_cons hstring.quote_isAllowed isAllowed_nil
  | .array helements => isAllowed_append (isAllowed_cons rfl helements.isAllowed) rfl
  | .object hmembers => isAllowed_append (isAllowed_cons rfl hmembers.isAllowed) rfl

/-- A spelled value with white space around it has allowed characters only. -/
theorem TextSpelled.isAllowed {v : Value} {ps : List Segment} (h : TextSpelled v ps) :
    IsAllowed ps :=
  match h with
  | .text hbefore hvalue hbehind =>
      isAllowed_append (isAllowed_space_cons hbefore hvalue.isAllowed)
        (isAllowed_space_cons hbehind isAllowed_nil)

/-- Spelled elements have allowed characters only. -/
theorem ElementsSpelled.isAllowed {vs : List Value} {ps : List Segment}
    (h : ElementsSpelled vs ps) : IsAllowed ps :=
  match h with
  | .none hw => isAllowed_space_cons hw isAllowed_nil
  | .one htext => htext.isAllowed
  | .cons htext helements =>
      isAllowed_append htext.isAllowed (isAllowed_cons rfl helements.isAllowed)

/-- A spelled member has allowed characters only. -/
theorem MemberSpelled.isAllowed {m : List UInt16 × Value} {ps : List Segment}
    (h : MemberSpelled m ps) : IsAllowed ps :=
  match h with
  | .member hbefore hname htail htext => by
      apply isAllowed_space_cons hbefore
      apply isAllowed_cons _ htext.isAllowed
      rw [text, List.all_append, List.all_append, hname.quote_isAllowed,
        all_isAllowed_of_all (fun _ => isAllowed_of_isSpace) htail]
      rfl

/-- Spelled members have allowed characters only. -/
theorem MembersSpelled.isAllowed {ms : List (List UInt16 × Value)} {ps : List Segment}
    (h : MembersSpelled ms ps) : IsAllowed ps :=
  match h with
  | .none hw => isAllowed_space_cons hw isAllowed_nil
  | .one hmember => hmember.isAllowed
  | .cons hmember hmembers =>
      isAllowed_append hmember.isAllowed (isAllowed_cons rfl hmembers.isAllowed)

end

/-- A character that is not allowed is not in a JSON text. -/
theorem not_mem_of_textSpelled {v : Value} {ps : List Segment} (h : TextSpelled v ps) {c : Char}
    (hc : isAllowed c = false) : c ∉ join ps := by
  intro hmem
  have hallowed := List.all_eq_true.1 h.isAllowed c hmem
  rw [hc] at hallowed
  contradiction

end Json
end JsonTint
