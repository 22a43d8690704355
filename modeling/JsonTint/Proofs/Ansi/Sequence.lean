import JsonTint.Ansi.Decode

/-!
# Escape sequences are read back

The two escape sequences that are written are read as what they say, whatever
stands behind them, and none of their characters but the first one is an escape
character.

Main results:

- Theorem `component?_component`: the digits of a component are read as the
  component.
- Theorems `order?_setColor` and `order?_reset`: the parameters of the two
  sequences are read as what the sequences say.
- Theorem `splitSequence?_append`: a sequence ends at its last character, also
  before text that looks like more of it.
-/

namespace JsonTint
namespace Ansi

open Text

/-! ## Sequences and their parameters -/

/-- The escape sequence with the given parameters, without the escape
character. -/
def sequenceBody (parameters : List Char) : List Char :=
  '[' :: (parameters ++ ['m'])

/-- The parameters of the sequence that sets a colour. -/
def colorParameters (components : Components) : List Char :=
  [';'].intercalate
    [['3', '8'], ['2'], component components.1, component components.2.1,
      component components.2.2]

/-- Setting a colour is one sequence. -/
theorem setColor_eq (color : Color) :
    setColor color = escapeChar :: sequenceBody (colorParameters color.components) := by
  simp [setColor, sequenceBody, colorParameters, List.intercalate]

/-- Resetting the colour is one sequence. -/
theorem reset_eq : reset = escapeChar :: sequenceBody ['0'] :=
  rfl

/-! ## Components -/

/-- A component is written in digits. -/
theorem isDigit_of_mem_component {b : UInt8} {c : Char} (h : c ∈ component b) :
    c.isDigit = true :=
  Nat.isDigit_of_mem_toDigits (by decide) (by decide) h

/-- The digits of a component are read as the component. -/
@[simp]
theorem component?_component (b : UInt8) : component? (component b) = some b := by
  have hvalue : Nat.ofDigitChars 10 (component b) 0 = b.toNat := Nat.ofDigitChars_ten_toDigits
  have hne : component b ≠ [] := Nat.toDigits_ne_nil
  have hdigits : (component b).all Char.isDigit = true :=
    List.all_eq_true.2 fun c hc => isDigit_of_mem_component hc
  rw [component?, hvalue, if_pos ⟨hne, hdigits, b.toNat_lt⟩, UInt8.ofNat_toNat]

/-! ## Orders -/

/-- The sequence that sets a colour is read as that. -/
theorem order?_setColor (components : Components) :
    order? (colorParameters components) = some (.setColor components) := by
  have hcomponent (b : UInt8) : ';' ∉ component b := fun h =>
    absurd (isDigit_of_mem_component h) (by decide)
  have hsplit : (colorParameters components).splitOn ';' =
      [['3', '8'], ['2'], component components.1, component components.2.1,
        component components.2.2] := by
    apply List.splitOn_intercalate
    · simp [hcomponent]
    · simp
  simp [order?, hsplit]

/-- The sequence that ends a colour is read as that. -/
theorem order?_reset : order? ['0'] = some .reset := by
  decide

/-! ## Sequences before other text -/

/-- A component is made of the characters of parameters. -/
theorem all_isParameter_component (b : UInt8) : (component b).all isParameter = true :=
  List.all_eq_true.2 fun c hc => by rw [isParameter, isDigit_of_mem_component hc, Bool.true_or]

/-- The parameters of a colour are made of these characters. -/
theorem all_isParameter_colorParameters (components : Components) :
    (colorParameters components).all isParameter = true := by
  have hfixed : isParameter '3' = true ∧ isParameter '8' = true ∧ isParameter '2' = true ∧
      isParameter ';' = true := by decide
  simp [colorParameters, List.intercalate, all_isParameter_component, hfixed, -List.all_eq_true]

variable {parameters : List Char}

/-- A sequence ends at its last character, whatever stands behind it. -/
theorem splitSequence?_append (h : parameters.all isParameter = true) (behind : List Char) :
    splitSequence? (sequenceBody parameters ++ behind) = some (parameters, behind) := by
  have hparameters : (parameters ++ ('m' :: behind)).takeWhile isParameter = parameters := by
    rw [List.takeWhile_append_of_pos (List.all_eq_true.1 h)]
    exact List.append_nil parameters
  simp [sequenceBody, splitSequence?, hparameters]

/-- A sequence has one escape character, its first one. -/
theorem escapeChar_not_mem_sequenceBody (h : parameters.all isParameter = true) :
    escapeChar ∉ sequenceBody parameters := by
  have hparameter : escapeChar ∉ parameters := fun hmem =>
    absurd (List.all_eq_true.1 h escapeChar hmem) (by decide)
  simp only [sequenceBody, List.mem_cons, List.mem_append, List.not_mem_nil, not_or]
  exact ⟨by decide, hparameter, by decide, not_false⟩

end Ansi
end JsonTint
