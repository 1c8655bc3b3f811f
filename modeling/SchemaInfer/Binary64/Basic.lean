/-!
Doubles in exact arithmetic.

A `Binary64` is a number in the 64-bit interchange format. `round` gives the double nearest to a
quotient of natural numbers, ties going to the even neighbour, and products and quotients of doubles
are rounded exact results.
-/

namespace SchemaInfer

/-- A double, by the bits of its interchange format: a sign bit, eleven bits of exponent and fifty-two
of fraction. -/
structure Binary64 where
  bits : UInt64
deriving DecidableEq

namespace Binary64

def twoTo (n : Nat) : Nat :=
  Nat.pow 2 n

def tenTo (n : Nat) : Nat :=
  Nat.pow 10 n

/-! ### Fields -/

def negative (x : Binary64) : Bool :=
  decide (twoTo 63 ≤ x.bits.toNat)

def exponentField (x : Binary64) : Nat :=
  x.bits.toNat / twoTo 52 % twoTo 11

def fractionField (x : Binary64) : Nat :=
  x.bits.toNat % twoTo 52

/-- The all-ones exponent is kept for infinities and undefined results. -/
def isFinite (x : Binary64) : Bool :=
  x.exponentField != 2047

/-- The magnitude of a finite double is `x.mantissa * 2 ^ x.exponent`. -/
def mantissa (x : Binary64) : Nat :=
  if x.exponentField = 0 then x.fractionField else x.fractionField + twoTo 52

def exponent (x : Binary64) : Int :=
  (if x.exponentField = 0 then 1 else (x.exponentField : Int)) - 1075

def isZero (x : Binary64) : Bool :=
  x.mantissa == 0

/-- Equality as numbers: the two zeros are equal. -/
def sameNumber (x y : Binary64) : Bool :=
  x == y || (x.isZero && y.isZero)

/-! ### Rounding -/

/-- The double with the given sign and magnitude `mantissa * 2 ^ exponent`. A mantissa below `2 ^ 52`
goes with the least exponent, `-1074`. -/
def ofParts (negative : Bool) (mantissa : Nat) (exponent : Int) : Binary64 :=
  let magnitude :=
    if mantissa < twoTo 52 then mantissa
    else (exponent + 1075).toNat * twoTo 52 + (mantissa - twoTo 52)
  ⟨UInt64.ofNat (magnitude + if negative then twoTo 63 else 0)⟩

/-- The quotient `num / den` multiplied by a power of two, as a quotient. -/
def scale (num den : Nat) (exponent : Int) : Nat × Nat :=
  if 0 ≤ exponent then (num * twoTo exponent.toNat, den) else (num, den * twoTo (-exponent).toNat)

/-- The double nearest to `num / den` with the given sign, a tie going to the even mantissa. There is
none if the result is beyond the largest finite double. -/
def round (negative : Bool) (num den : Nat) : Option Binary64 :=
  if num = 0 then some (ofParts negative 0 0)
  else
    let estimate : Int := (num.log2 : Int) - den.log2
    let (n, d) := scale num den (-estimate)
    let leading := if d ≤ n then estimate else estimate - 1
    let exponent := max (leading - 52) (-1074)
    let (n, d) := scale num den (-exponent)
    let floor := n / d
    let rest := 2 * (n % d)
    let nearest := if d < rest || (rest == d && floor % 2 == 1) then floor + 1 else floor
    let (mantissa, exponent) :=
      if nearest = twoTo 53 then (twoTo 52, exponent + 1) else (nearest, exponent)
    if 971 < exponent then none else some (ofParts negative mantissa exponent)

/-- The double nearest to a natural number below `2 ^ 1023`. -/
def ofNat (n : Nat) : Binary64 :=
  (round false n 1).getD ⟨0⟩

/-- The double nearest to an integer of that size. -/
def ofInt (n : Int) : Binary64 :=
  (round (decide (n < 0)) n.natAbs 1).getD ⟨0⟩

/-- The same magnitude with the given sign. -/
def withSign (negative : Bool) (x : Binary64) : Binary64 :=
  ofParts negative x.mantissa x.exponent

/-- The rounded product of two finite doubles, if it is finite. -/
def mul (x y : Binary64) : Option Binary64 :=
  let (num, den) := scale (x.mantissa * y.mantissa) 1 (x.exponent + y.exponent)
  round (x.negative != y.negative) num den

/-- The rounded quotient of two finite doubles, the second of which is not zero. -/
def div (x y : Binary64) : Option Binary64 :=
  let (num, den) := scale x.mantissa y.mantissa (x.exponent - y.exponent)
  round (x.negative != y.negative) num den

end Binary64

end SchemaInfer
