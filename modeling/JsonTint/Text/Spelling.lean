import JsonTint.Text.Blank
import Mathlib.Data.List.Forall2

/-!
# Spellings of a name

A name in lower case may be spelled with capitals, letter by letter, and with
the Kelvin sign for `k`.  These are the texts that have the name as their lower
case.  Lower case is meant in full here, for all characters; a name consists of
ASCII letters, so it only matters which characters have ASCII forms.
-/

namespace JsonTint
namespace Text

/-- A letter of a name is written in either case, and `k` also as the Kelvin
sign. -/
def SpellsLetter (x y : Char) : Prop :=
  x = y ∨ x = y.toUpper ∨ y = 'k' ∧ x = '\u212a'

/-- A text spells a name letter by letter. -/
def SpellsName (w : List Char) (name : String) : Prop :=
  List.Forall₂ SpellsLetter w name.toList

/-- An ASCII character. -/
def IsAscii (c : Char) : Prop :=
  c.toNat < 128

instance : DecidablePred IsAscii := fun c => inferInstanceAs (Decidable (c.toNat < 128))

/-- A text and its lower case.  ASCII letters and the Kelvin sign have ASCII
forms.  Any other character becomes some piece of text that is not all ASCII: it
may depend on the place of the character, as with the Greek sigma, and may be
longer than one character, as with the dotted capital I. -/
inductive LowerCase : List Char → List Char → Prop
  | nil : LowerCase [] []
  | ascii {c : Char} {s t : List Char} (hc : IsAscii c) (rest : LowerCase s t) :
      LowerCase (c :: s) (c.toLower :: t)
  | kelvin {s t : List Char} (rest : LowerCase s t) : LowerCase ('\u212a' :: s) ('k' :: t)
  | other {c : Char} {piece s t : List Char} (hc : ¬ IsAscii c) (hkelvin : c ≠ '\u212a')
      (hpiece : ∃ x ∈ piece, ¬ IsAscii x) (rest : LowerCase s t) :
      LowerCase (c :: s) (piece ++ t)

end Text
end JsonTint
