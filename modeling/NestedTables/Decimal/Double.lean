/-!
# Binary floating-point numbers of sixty-four bits

A `NestedTables.Double` is its sixty-four bits, so two of them are equal exactly when
their bits are: the two zeros differ, and a value that is not a number equals itself. The
arithmetic a document needs is done on natural numbers, in four definitions:

* `Double.magnitude` reads the bits as `m * 2 ^ q`;
* `Double.ofRatio` rounds a quotient of naturals to the nearest double, a tie to the even
  one;
* `Double.ofDecimal` does so for a decimal number, whatever its exponent;
* `Double.sameAsInt` compares a double with an integer without rounding either.
-/

namespace NestedTables

/-- A double is its bits: the sign, eleven bits of exponent, fifty-two of fraction. -/
structure Double where
  bits : UInt64
deriving DecidableEq, Repr

namespace Double

/-- The bits of positive infinity. -/
def infinityBits : Nat := 0x7ff0000000000000

/-- Whether the sign bit is set. -/
def negative (x : Double) : Bool :=
  x.bits.toNat ≥ Nat.pow 2 63

/-- The bits without the sign. -/
def unsignedBits (x : Double) : Nat :=
  x.bits.toNat % Nat.pow 2 63

def isNaN (x : Double) : Bool :=
  infinityBits < x.unsignedBits

def isInfinite (x : Double) : Bool :=
  x.unsignedBits = infinityBits

def isZero (x : Double) : Bool :=
  x.unsignedBits = 0

/-- The size of a finite double as `m * 2 ^ (q - 1074)`. -/
def magnitude (x : Double) : Nat × Nat :=
  let exponent := x.unsignedBits / Nat.pow 2 52
  let fraction := x.unsignedBits % Nat.pow 2 52
  if exponent = 0 then (fraction, 0) else (Nat.pow 2 52 + fraction, exponent - 1)

/-- The size of a finite double as a quotient of naturals. -/
def ratio (x : Double) : Nat × Nat :=
  (x.magnitude.1 * Nat.pow 2 x.magnitude.2, Nat.pow 2 1074)

/-- A double from its sign and the rest of its bits. -/
def ofSign (negative : Bool) (unsigned : Nat) : Double :=
  ⟨((if negative then Nat.pow 2 63 else 0) + unsigned).toUInt64⟩

/-- A double that is no number. `mark` tells it apart from others; it is not shown. -/
def notNumber (mark : Nat) : Double :=
  ofSign false (infinityBits + Nat.pow 2 51 + mark % Nat.pow 2 51)

/-- The quotient rounded to the nearest natural, a tie to the even one. -/
def roundDiv (num den : Nat) : Nat :=
  let low := num / den
  let rest := num % den
  if den < 2 * rest ∨ (den = 2 * rest ∧ low % 2 = 1) then low + 1 else low

/-- The double nearest to `num / den`, a tie to the even one. The last place of the result
is worth `2 ^ (q - 1074)`, where `q` is the least that leaves at most fifty-three bits. -/
def ofRatio (negative : Bool) (num den : Nat) : Double :=
  let wide := (num * Nat.pow 2 1074 / den).log2
  let q := wide - 52
  let m := roundDiv (num * Nat.pow 2 1074) (den * Nat.pow 2 q)
  ofSign negative (min infinityBits (if m < Nat.pow 2 52 then m else q * Nat.pow 2 52 + m))

/-- A finite double as a multiple of `2 ^ -1074`. -/
def scaled (x : Double) : Int :=
  if x.negative then -(x.ratio.1 : Int) else x.ratio.1

/-- The double nearest to `n * 2 ^ -1074`. -/
def ofScaled (n : Int) : Double :=
  ofRatio (n < 0) n.natAbs (Nat.pow 2 1074)

/-- The double with the other sign. -/
def negated (x : Double) : Double :=
  ofSign (!x.negative) x.unsignedBits

/-- Whether a double is a number and not infinite. -/
def isFinite (x : Double) : Bool :=
  x.unsignedBits < infinityBits

/-- The sum, rounded. Infinities of different signs have none. -/
def add (x y : Double) : Double :=
  if x.isFinite && y.isFinite then ofScaled (x.scaled + y.scaled)
  else if x.isNaN || (y.isInfinite && x.isInfinite && x.negative ≠ y.negative) then notNumber 0
  else if y.isFinite then x
  else y

/-- The double nearest to a natural, unless the natural is too large for one. -/
def ofNat? (n : Nat) : Option Double :=
  let x := ofRatio false n 1
  if x.isFinite then some x else none

/-- The product with a positive finite double, rounded. -/
def scale (x factor : Double) : Double :=
  if x.isFinite then
    ofRatio x.negative (x.ratio.1 * factor.ratio.1) (x.ratio.2 * factor.ratio.2)
  else x

/-- The number of decimal digits of a natural, which is one for zero. -/
def digitCount (n : Nat) : Nat :=
  (Nat.toDigits 10 n).length

/-- The double nearest to `digits * 10 ^ exponent`. Past a few hundred places the result is
infinite or zero whatever the digits are, and no power of ten is taken. -/
def ofDecimal (negative : Bool) (digits : Nat) (exponent : Int) : Double :=
  if digits = 0 then ofSign negative 0
  else if exponent + digitCount digits > 310 then ofSign negative infinityBits
  else if exponent + digitCount digits < -330 then ofSign negative 0
  else if exponent < 0 then ofRatio negative digits (Nat.pow 10 (-exponent).toNat)
  else ofRatio negative (digits * Nat.pow 10 exponent.toNat) 1

/-- Whether a double and an integer are the same number. -/
def sameAsInt (x : Double) (n : Int) : Bool :=
  !x.isNaN && !x.isInfinite &&
    (if x.negative then -(x.ratio.1 : Int) else x.ratio.1) == n * x.ratio.2

/-- Whether two doubles are the same number: the zeros are, and what is no number is not. -/
def same (x y : Double) : Bool :=
  !x.isNaN && !y.isNaN && (x == y || (x.isZero && y.isZero))

end Double

end NestedTables
