/-!
# Binary fractions of 53 bits

A decimal fraction is read as the nearest binary fraction with at most 53
significant bits and an exponent within fixed bounds; a tie goes to the even
neighbour.  It is written with the fewest decimal digits that are read back as
the same value, and never with an exponent.  All arithmetic is exact.
-/

namespace JsonTint

/-- A binary fraction with a sign, an infinity, or no number at all. -/
inductive Binary64 where
  /-- The value `mantissa * 2 ^ exponent`, negated if `negative` says so. -/
  | finite (negative : Bool) (mantissa : Nat) (exponent : Int)
  | infinite (negative : Bool)
  | notANumber
  deriving DecidableEq, Repr

namespace Binary64

/-- The least exponent of a value. -/
def minExponent : Int := -1074

/-- The greatest exponent of a value. -/
def maxExponent : Int := 971

/-! ## Reading -/

/-- The whole number nearest to a quotient, the even one on a tie. -/
def roundQuotient (num den : Nat) : Nat :=
  let q := num / den
  let twice := 2 * (num % den)
  if twice < den || (twice == den && q % 2 == 0) then q else q + 1

/-- The value nearest to a positive quotient. -/
def ofQuotient (negative : Bool) (num den : Nat) : Binary64 :=
  let size : Int := (num.log2 : Int) - (den.log2 : Int)
  let low := max (size - 53) minExponent
  let mantissa (e : Int) := roundQuotient (num * Nat.pow 2 (-e).toNat) (den * Nat.pow 2 e.toNat)
  let quotient := num * Nat.pow 2 (-low).toNat / (den * Nat.pow 2 low.toNat)
  let e := if quotient < Nat.pow 2 53 then low else low + 1
  let m := mantissa e
  let (m, e) := if m = Nat.pow 2 53 then (Nat.pow 2 52, e + 1) else (m, e)
  if maxExponent < e then infinite negative else finite negative m e

/-- The value nearest to `digits * 10 ^ exponent`.  Quotients far outside the
range of values are not computed. -/
def ofDecimal (negative : Bool) (digits : Nat) (exponent : Int) : Binary64 :=
  let size : Int := (Nat.toDigits 10 digits).length
  if digits = 0 || size + exponent < -400 then finite negative 0 minExponent
  else if 400 < size + exponent then infinite negative
  else ofQuotient negative (digits * Nat.pow 10 exponent.toNat) (Nat.pow 10 (-exponent).toNat)

/-! ## Writing -/

/-- Compares `a * 10 ^ p` with `b * 2 ^ q`. -/
def compareScaled (a : Nat) (p : Int) (b : Nat) (q : Int) : Ordering :=
  compare (a * Nat.pow 10 p.toNat * Nat.pow 2 (-q).toNat)
    (b * Nat.pow 2 q.toNat * Nat.pow 10 (-p).toNat)

/-- Whether `a * 10 ^ p` is read as the value `m * 2 ^ e`.  The values that are
lie between two ends, which belong to them if `m` is even. -/
def readsAs (m : Nat) (e : Int) (a : Nat) (p : Int) : Bool :=
  let low := if m = Nat.pow 2 52 && minExponent < e then 4 * m - 1 else 4 * m - 2
  let lowSide := compareScaled a p low (e - 2)
  let highSide := compareScaled a p (4 * m + 2) (e - 2)
  let closed := m % 2 == 0
  (lowSide == .gt || (closed && lowSide == .eq)) &&
    (highSide == .lt || (closed && highSide == .eq))

/-- The number of steps of `10 ^ p` that fit into `m * 2 ^ e`. -/
def stepsBelow (m : Nat) (e p : Int) : Nat :=
  (m * Nat.pow 2 e.toNat * Nat.pow 10 (-p).toNat) / (Nat.pow 10 p.toNat * Nat.pow 2 (-e).toNat)

/-- The shortest decimal that is read as `m * 2 ^ e`, looking at no more than
`fuel` grids from `10 ^ p` downwards: on each, at the two neighbours of the
value.  Of two that are read back the nearer one is taken, on a tie the upper
one. -/
def shortestFrom (m : Nat) (e : Int) : Nat → Int → Nat × Int
  | 0, p => (stepsBelow m e p, p)
  | fuel + 1, p =>
    let down := stepsBelow m e p
    match readsAs m e down p, readsAs m e (down + 1) p with
    | true, true =>
      let upIsNearer := compareScaled (2 * down + 1) p (2 * m) e != .gt
      (if upIsNearer then down + 1 else down, p)
    | true, false => (down, p)
    | false, true => (down + 1, p)
    | false, false => shortestFrom m e fuel (p - 1)

/-- The digits and the exponent of the shortest decimal that is read as
`m * 2 ^ e`. -/
def shortest (m : Nat) (e : Int) : Nat × Int :=
  let top := Int.fdiv ((m.log2 + 1 + e) * 30103) 100000 + 1
  shortestFrom m e 20 top

/-- The decimal `digits * 10 ^ exponent` without an exponent, with at least one
digit on both sides of the point. -/
def positional (digits : Nat) (exponent : Int) : List Char :=
  let ds := Nat.toDigits 10 digits
  if 0 ≤ exponent then
    ds ++ List.replicate exponent.toNat '0' ++ ['.', '0']
  else
    let places := (-exponent).toNat
    let padded := List.replicate (places + 1 - ds.length) '0' ++ ds
    padded.take (padded.length - places) ++ '.' :: padded.drop (padded.length - places)

/-- The text of a value. -/
def text : Binary64 → List Char
  | finite negative m e =>
    let body :=
      if m = 0 then ['0', '.', '0']
      else
        let (digits, exponent) := shortest m e
        positional digits exponent
    if negative then '-' :: body else body
  | infinite negative => if negative then "-inf".toList else "inf".toList
  | notANumber => "NaN".toList

end Binary64
end JsonTint
