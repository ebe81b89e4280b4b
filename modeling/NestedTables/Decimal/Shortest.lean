import NestedTables.Decimal.Double

/-!
# The shortest decimal that reads back

A finite double is written with the fewest digits that read back as the same double, and
among the numbers with so few digits with the one nearest to it. `Double.shortest` looks
for it as it is stated: for one digit, two digits, and so on up to seventeen it tries the
two neighbours of the value on the grid of numbers with so many digits, the nearer one
first, and takes the first that reads back. Seventeen digits always suffice; the exact
value stands at the end of the list of candidates, so that what is found reads back by
construction.

`DecimalLayout` then says how the digits are written out.
-/

namespace NestedTables

/-- The number `digits * 10 ^ exponent`. -/
structure Decimal where
  digits : Nat
  exponent : Int
deriving DecidableEq, Repr

namespace Double

/-- The double that a decimal reads as. -/
def ofSignedDecimal (negative : Bool) (d : Decimal) : Double :=
  ofDecimal negative d.digits d.exponent

/-- The place of the point before the first digit of a positive quotient: the `k` with
`10 ^ (k - 1) ≤ num / den < 10 ^ k`. -/
def decimalPoint (num den : Nat) : Int :=
  if den ≤ num then digitCount (num / den) else 1 - (digitCount ((den - 1) / num) : Int)

/-- The neighbours of `num / den` among the multiples of `10 ^ unit`, the nearer one first
and the even one of two that are equally near. -/
def neighbours (num den : Nat) (unit : Int) : List Decimal :=
  let num' := if unit < 0 then num * Nat.pow 10 (-unit).toNat else num
  let den' := if unit < 0 then den else den * Nat.pow 10 unit.toNat
  let low := num' / den'
  let nearest := roundDiv num' den'
  [⟨nearest, unit⟩, ⟨if nearest = low then low + 1 else low, unit⟩]

/-- The exact value of `m * 2 ^ (q - 1074)` as a decimal. -/
def exactDecimal (m q : Nat) : Decimal :=
  ⟨m * Nat.pow 2 q * Nat.pow 5 1074, -1074⟩

/-- The decimals to try for a finite double that is not zero, in the order of preference. -/
def candidates (x : Double) : List Decimal :=
  let (num, den) := x.ratio
  let point := decimalPoint num den
  (List.range 17).flatMap (fun n : Nat => neighbours num den (point - (n + 1))) ++
    [exactDecimal x.magnitude.1 x.magnitude.2]

/-- A decimal without its trailing zeros; `fuel` bounds their number. -/
def dropZeros : Nat → Decimal → Decimal
  | 0, d => d
  | fuel + 1, d =>
    if d.digits ≠ 0 ∧ d.digits % 10 = 0 then dropZeros fuel ⟨d.digits / 10, d.exponent + 1⟩ else d

/-- The shortest decimal that reads back as the size of a finite double. -/
def shortest (x : Double) : Decimal :=
  if x.isZero then ⟨0, 0⟩
  else
    let size := ofSign false x.unsignedBits
    match (candidates size).find? fun d => ofSignedDecimal false d = size with
    | some d => dropZeros (digitCount d.digits) d
    | none => exactDecimal x.magnitude.1 x.magnitude.2

end Double

/-- How the digits of a number are written out. -/
structure DecimalLayout where
  /-- The least exponent of the first digit that is written without an exponent. -/
  leastPositional : Int
  /-- The least exponent of the first digit, past the small ones, written with an exponent. -/
  leastScientific : Int
  /-- The least number of digits of a written exponent. -/
  exponentWidth : Nat
  /-- Whether a single digit before an exponent is followed by a point and a zero. -/
  pointBeforeExponent : Bool
  notANumber : String
  infinity : String
  negativeInfinity : String

namespace DecimalLayout

/-- Zeros in front of digits up to a width. -/
def padded (width : Nat) (digits : List Char) : List Char :=
  List.replicate (width - digits.length) '0' ++ digits

/-- The digits of a positional number whose first digit has the exponent `leading`; a
whole number ends in a point and a zero. -/
def positional (digits : List Char) (leading : Int) : List Char :=
  if leading < 0 then
    '0' :: '.' :: (List.replicate (-leading - 1).toNat '0' ++ digits)
  else
    let before := leading.toNat + 1
    if digits.length ≤ before then
      digits ++ List.replicate (before - digits.length) '0' ++ ['.', '0']
    else digits.take before ++ '.' :: digits.drop before

/-- The digits with a point after the first and the exponent of the first. -/
def scientific (layout : DecimalLayout) (digits : List Char) (leading : Int) : List Char :=
  let mantissa := match digits with
    | [d] => if layout.pointBeforeExponent then [d, '.', '0'] else [d]
    | d :: rest => d :: '.' :: rest
    | [] => []
  mantissa ++ 'e' :: (if leading < 0 then '-' else '+') ::
    padded layout.exponentWidth (Nat.toDigits 10 leading.natAbs)

/-- A double written out. -/
def render (layout : DecimalLayout) (x : Double) : List Char :=
  if x.isNaN then layout.notANumber.toList
  else if x.isInfinite then
    (if x.negative then layout.negativeInfinity else layout.infinity).toList
  else
    let d := x.shortest
    let digits := Nat.toDigits 10 d.digits
    let leading : Int := if d.digits = 0 then 0 else d.exponent + digits.length - 1
    let body :=
      if layout.leastPositional ≤ leading ∧ leading < layout.leastScientific then
        positional digits leading
      else scientific layout digits leading
    if x.negative then '-' :: body else body

end DecimalLayout

end NestedTables
