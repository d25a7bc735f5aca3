/-!
# Double-precision numbers

A numeric literal stands for the double-precision number nearest to it, of two equally near ones
for the one with the even mantissa. Numbers are `mantissa * 2 ^ exponent`; literals are given as
fractions of natural numbers, so that rounding is exact arithmetic.
-/

namespace ReferencePages

/-- A finite double-precision number that is not negative. -/
structure Binary64 where
  mantissa : Nat
  exponent : Int
deriving Repr, DecidableEq, Inhabited

namespace Binary64

/-- The least exponent. -/
def minExponent : Int := -1074

/-- The greatest exponent. -/
def maxExponent : Int := 971

/-- The numerator and the denominator of `num / den * 2 ^ k`. -/
def scaleBy2 (num den : Nat) (k : Int) : Nat × Nat :=
  if 0 ≤ k then (num * Nat.pow 2 k.toNat, den) else (num, den * Nat.pow 2 (-k).toNat)

/-- The nearest natural number to a fraction, and of two equally near ones the even one. -/
def roundHalfEven (num den : Nat) : Nat :=
  let q := num / den
  let r := num % den
  if 2 * r < den then q
  else if den < 2 * r then q + 1
  else if q % 2 = 0 then q else q + 1

/-- The exponent of a fraction: the mantissa has 53 bits unless the exponent is the least. -/
def exponentOf (num den : Nat) : Int :=
  let low : Int := (num.log2 : Int) - den.log2 - 53
  let (n, d) := scaleBy2 num den (-low)
  max minExponent (if n / d < Nat.pow 2 53 then low else low + 1)

/-- The nearest number to a fraction; none where that is beyond the greatest number. -/
def ofRatio? (num den : Nat) : Option Binary64 :=
  if num = 0 then some ⟨0, 0⟩
  else
    let e := exponentOf num den
    let (n, d) := scaleBy2 num den (-e)
    let m := roundHalfEven n d
    let (m, e) := if m = Nat.pow 2 53 then (Nat.pow 2 52, e + 1) else (m, e)
    if maxExponent < e then none else some ⟨m, e⟩

/-- `n * 10 ^ k` as a fraction. An exponent beyond every number is cut short. -/
def decimalRatio (n : Nat) (k : Int) : Nat × Nat :=
  if n = 0 then (0, 1)
  else if 0 ≤ k then (n * Nat.pow 10 (min k 400).toNat, 1)
  else (n, Nat.pow 10 (min (-k) (400 + (toString n).length)).toNat)

end Binary64

end ReferencePages
