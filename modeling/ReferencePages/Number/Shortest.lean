import ReferencePages.Number.Binary64

/-!
# The shortest decimal of a number

Of the decimals that round to a number, the shortest is written, and of several the nearest.
The number is compared with its two neighbours on the grid of 1, 2, … 17 significant digits; the
first grid on which one of them rounds back to the number wins.
-/

namespace ReferencePages

/-- The decimal `digits * 10 ^ exponent`. -/
structure Decimal where
  digits : Nat
  exponent : Int
deriving Repr, DecidableEq, Inhabited

namespace Binary64

/-- The numbers that round to this one, times two: its value and the bounds of the interval,
over one denominator. The interval is narrower below a power of two. -/
structure Interval where
  value : Nat
  low : Nat
  high : Nat
  denominator : Nat
  /-- The bounds round to the number too. -/
  closed : Bool

/-- The interval of a number. -/
def interval (x : Binary64) : Interval :=
  let (n, d) := scaleBy2 1 1 x.exponent
  let narrow := x.mantissa = Nat.pow 2 52 ∧ minExponent < x.exponent
  { value := 4 * x.mantissa * n
    low := (4 * x.mantissa - if narrow then 1 else 2) * n
    high := (4 * x.mantissa + 2) * n
    denominator := 4 * d
    closed := x.mantissa % 2 = 0 }

/-- Whether the fraction `num / den` lies in an interval. -/
def Interval.contains (i : Interval) (num den : Nat) : Bool :=
  let v := num * i.denominator
  if i.closed then i.low * den ≤ v && v ≤ i.high * den else i.low * den < v && v < i.high * den

/-- The fraction that a decimal stands for. -/
def fraction (digits : Nat) (exponent : Int) : Nat × Nat :=
  if 0 ≤ exponent then (digits * Nat.pow 10 exponent.toNat, 1)
  else (digits, Nat.pow 10 (-exponent).toNat)

/-- The nearer of the two neighbours on a grid that round to the number, the upper one where
both are equally near. -/
def onGrid? (i : Interval) (exponent : Int) : Option Decimal :=
  let (unitNum, unitDen) := fraction 1 exponent
  let below := i.value * unitDen / (i.denominator * unitNum)
  let within (k : Nat) : Bool :=
    let (n, d) := fraction k exponent
    i.contains n d
  let rest := i.value * unitDen - below * (i.denominator * unitNum)
  let upNearer := i.denominator * unitNum ≤ 2 * rest
  match within below, within (below + 1) with
  | true, true => some ⟨if upNearer then below + 1 else below, exponent⟩
  | true, false => some ⟨below, exponent⟩
  | false, true => some ⟨below + 1, exponent⟩
  | false, false => none

/-- The number of decimal digits before the point, or less one of the zeros behind it. -/
def magnitude (i : Interval) : Nat → Int → Int
  | 0, k => k
  | fuel + 1, k =>
    let (n, d) := fraction 1 k
    if i.value * d < n * i.denominator then
      let (n, d) := fraction 1 (k - 1)
      if n * i.denominator ≤ i.value * d then k else magnitude i fuel (k - 1)
    else magnitude i fuel (k + 1)

/-- The shortest decimal of a number. -/
def shortest (x : Binary64) : Decimal :=
  if x.mantissa = 0 then ⟨0, 0⟩
  else
    let i := x.interval
    let k := magnitude i 700 0
    let d := ((List.range 17).findSome? fun (n : Nat) => onGrid? i (k - 1 - n)).getD ⟨x.mantissa, 0⟩
    if d.digits % 10 = 0 then ⟨d.digits / 10, d.exponent + 1⟩ else d

end Binary64

/-- A decimal in positional notation. -/
def Decimal.positional (d : Decimal) : List Char :=
  let digits := (toString d.digits).toList
  if 0 ≤ d.exponent then
    if d.digits = 0 then ['0'] else digits ++ List.replicate d.exponent.toNat '0'
  else
    let places := (-d.exponent).toNat
    if digits.length ≤ places then
      '0' :: '.' :: List.replicate (places - digits.length) '0' ++ digits
    else digits.take (digits.length - places) ++ '.' :: digits.drop (digits.length - places)

end ReferencePages
