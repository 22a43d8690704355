import JsonTint.Segment
import JsonTint.Text.Reader

/-!
# The grammar of JSON

The values that JSON texts stand for, and their spellings.  A spelling is a row
of segments: the lexemes are its tokens, and brackets, commas and insignificant
white space are its gaps.  The name of a member is one lexeme with the white
space and the colon behind it.
-/

namespace JsonTint
namespace Json

open Segment

/-! ## Values -/

/-- A JSON value.  A text is a row of UTF-16 code units, since an escape may
stand for one half of a surrogate pair.  The members of an object are in order,
and a name may be there more than once. -/
inductive Value where
  | null
  | boolean (b : Bool)
  | number (x : Rat)
  | string (units : List UInt16)
  | array (elements : List Value)
  | object (members : List (List UInt16 × Value))

/-- The classes of the lexemes of a value, in the order of the text. -/
def Value.classes : Value → List TokenClass
  | null => [.null]
  | boolean _ => [.boolean]
  | number _ => [.number]
  | string _ => [.string]
  | array elements => elements.flatMap fun v => v.classes
  | object members => members.flatMap fun m => .key :: m.2.classes
decreasing_by
  · have hlt := List.sizeOf_lt_of_mem (by assumption : v ∈ elements)
    simp
    omega
  · have hlt := List.sizeOf_lt_of_mem (by assumption : m ∈ members)
    cases m
    simp at hlt ⊢
    omega

/-! ## White space -/

/-- The characters of insignificant white space. -/
def isSpace (c : Char) : Bool :=
  c == ' ' || c == '\t' || c == '\n' || c == '\r'

/-! ## Strings -/

/-- The UTF-16 code units of a character. -/
def utf16 (c : Char) : List UInt16 :=
  let n := c.toNat
  if n < 0x10000 then [UInt16.ofNat n]
  else
    [UInt16.ofNat (0xd800 + (n - 0x10000) / 0x400), UInt16.ofNat (0xdc00 + (n - 0x10000) % 0x400)]

/-- The characters that stand for a code unit behind a backslash. -/
def shortEscapes : List (Char × UInt16) :=
  [('"', 0x22), ('\\', 0x5c), ('/', 0x2f), ('b', 0x08), ('f', 0x0c), ('n', 0x0a), ('r', 0x0d),
    ('t', 0x09)]

/-- The inside of a quoted text spells a row of code units. -/
inductive StringSpelled : List UInt16 → List Char → Prop where
  | nil : StringSpelled [] []
  | plain {units : List UInt16} {s : List Char} {c : Char} (hcontrol : 0x20 ≤ c.toNat)
      (hquote : c ≠ '"') (hbackslash : c ≠ '\\') (hs : StringSpelled units s) :
      StringSpelled (utf16 c ++ units) (c :: s)
  | short {units : List UInt16} {s : List Char} {c : Char} {unit : UInt16}
      (hescape : (c, unit) ∈ shortEscapes) (hs : StringSpelled units s) :
      StringSpelled (unit :: units) ('\\' :: c :: s)
  | unicode {units : List UInt16} {s digits : List Char} (hlength : digits.length = 4)
      (hdigits : digits.all isHexDigit = true) (hs : StringSpelled units s) :
      StringSpelled (UInt16.ofNat (natOfDigits 16 digits) :: units) ('\\' :: 'u' :: digits ++ s)

/-- A text between quotes. -/
def quote (s : List Char) : List Char :=
  '"' :: s ++ ['"']

/-! ## Numbers -/

/-- The value of `coefficient * 10 ^ exponent`. -/
def decimal (coefficient exponent : Int) : Rat :=
  mkRat (coefficient * Int.pow 10 exponent.toNat) (Nat.pow 10 (-exponent).toNat)

/-- The sign of a number spells a factor. -/
inductive SignSpelled : Int → List Char → Prop where
  | none : SignSpelled 1 []
  | minus : SignSpelled (-1) ['-']

/-- The whole part of a number has no leading zero. -/
inductive WholeSpelled : List Char → Prop where
  | zero : WholeSpelled ['0']
  | digits {c : Char} {s : List Char} (hzero : c ≠ '0') (hc : c.isDigit = true)
      (hs : s.all Char.isDigit = true) : WholeSpelled (c :: s)

/-- The fraction of a number, if there is one, has digits. -/
inductive FractionSpelled : List Char → List Char → Prop where
  | none : FractionSpelled [] []
  | digits {s : List Char} (hne : s ≠ []) (hs : s.all Char.isDigit = true) :
      FractionSpelled s ('.' :: s)

/-- The sign of an exponent spells a factor. -/
inductive ExponentSignSpelled : Int → List Char → Prop where
  | none : ExponentSignSpelled 1 []
  | plus : ExponentSignSpelled 1 ['+']
  | minus : ExponentSignSpelled (-1) ['-']

/-- The exponent of a number, if there is one, has digits. -/
inductive ExponentSpelled : Int → List Char → Prop where
  | none : ExponentSpelled 0 []
  | digits {letter : Char} {factor : Int} {sign s : List Char}
      (hletter : letter = 'e' ∨ letter = 'E') (hsign : ExponentSignSpelled factor sign)
      (hne : s ≠ []) (hs : s.all Char.isDigit = true) :
      ExponentSpelled (factor * natOfDigits 10 s) (letter :: sign ++ s)

/-- A number in decimal notation. -/
inductive NumberSpelled : Rat → List Char → Prop where
  | parts {factor exponent : Int} {sign whole digits fraction tail : List Char}
      (hsign : SignSpelled factor sign) (hwhole : WholeSpelled whole)
      (hfraction : FractionSpelled digits fraction) (htail : ExponentSpelled exponent tail) :
      NumberSpelled
        (decimal (factor * natOfDigits 10 (whole ++ digits)) (exponent - digits.length))
        (sign ++ whole ++ fraction ++ tail)

/-! ## Values and texts -/

mutual

/-- A row of segments spells a value. -/
inductive ValueSpelled : Value → List Segment → Prop where
  | null : ValueSpelled .null [token .null "null".toList]
  | boolTrue : ValueSpelled (.boolean true) [token .boolean "true".toList]
  | boolFalse : ValueSpelled (.boolean false) [token .boolean "false".toList]
  | number {x : Rat} {s : List Char} (h : NumberSpelled x s) :
      ValueSpelled (.number x) [token .number s]
  | string {units : List UInt16} {s : List Char} (h : StringSpelled units s) :
      ValueSpelled (.string units) [token .string (quote s)]
  | array {vs : List Value} {ps : List Segment} (h : ElementsSpelled vs ps) :
      ValueSpelled (.array vs) (gap ['['] :: ps ++ [gap [']']])
  | object {ms : List (List UInt16 × Value)} {ps : List Segment} (h : MembersSpelled ms ps) :
      ValueSpelled (.object ms) (gap ['{'] :: ps ++ [gap ['}']])

/-- A row of segments spells a value with white space around it. -/
inductive TextSpelled : Value → List Segment → Prop where
  | text {v : Value} {ps : List Segment} {before behind : List Char}
      (hbefore : before.all isSpace = true) (h : ValueSpelled v ps)
      (hbehind : behind.all isSpace = true) :
      TextSpelled v (gap before :: ps ++ [gap behind])

/-- A row of segments spells what stands in the brackets of an array. -/
inductive ElementsSpelled : List Value → List Segment → Prop where
  | none {w : List Char} (hw : w.all isSpace = true) : ElementsSpelled [] [gap w]
  | one {v : Value} {ps : List Segment} (h : TextSpelled v ps) : ElementsSpelled [v] ps
  | cons {v next : Value} {vs : List Value} {ps qs : List Segment} (h : TextSpelled v ps)
      (hs : ElementsSpelled (next :: vs) qs) :
      ElementsSpelled (v :: next :: vs) (ps ++ gap [','] :: qs)

/-- A row of segments spells a member of an object. -/
inductive MemberSpelled : List UInt16 × Value → List Segment → Prop where
  | member {units : List UInt16} {v : Value} {ps : List Segment} {name before tail : List Char}
      (hbefore : before.all isSpace = true) (hname : StringSpelled units name)
      (htail : tail.all isSpace = true) (h : TextSpelled v ps) :
      MemberSpelled (units, v) (gap before :: token .key (quote name ++ tail ++ [':']) :: ps)

/-- A row of segments spells what stands in the braces of an object. -/
inductive MembersSpelled : List (List UInt16 × Value) → List Segment → Prop where
  | none {w : List Char} (hw : w.all isSpace = true) : MembersSpelled [] [gap w]
  | one {m : List UInt16 × Value} {ps : List Segment} (h : MemberSpelled m ps) :
      MembersSpelled [m] ps
  | cons {m next : List UInt16 × Value} {ms : List (List UInt16 × Value)} {ps qs : List Segment}
      (h : MemberSpelled m ps) (hs : MembersSpelled (next :: ms) qs) :
      MembersSpelled (m :: next :: ms) (ps ++ gap [','] :: qs)

end

end Json
end JsonTint
