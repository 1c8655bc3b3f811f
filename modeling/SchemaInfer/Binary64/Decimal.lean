import SchemaInfer.Binary64.Basic

/-!
Doubles and their decimal text.

A decimal is read in two roundings: its digits as one number, and that number times or over a power of
ten. A double is written with the fewest digits that round back to it, positionally while the point
falls within sixteen places or five zeros follow it at most, and with an exponent otherwise.
-/

namespace SchemaInfer.Binary64

/-! ### Reading -/

/-- The double nearest to a power of ten. -/
def powerOfTen (n : Nat) : Binary64 :=
  ofNat (tenTo n)

/-- Divides by `10 ^ places`, in steps of at most `10 ^ 308`. -/
def shrink (x : Binary64) (places : Nat) : Option Binary64 :=
  if places ≤ 308 then x.div (powerOfTen places)
  else if x.isZero then some x
  else (x.div (powerOfTen 308)).bind fun y => y.shrink (places - 308)
termination_by places

/-- The double for `digits * 10 ^ exponent`: the digits are rounded first, then the product or
quotient with the power of ten. There is none if it is too large. -/
def ofDecimal (negative : Bool) (digits : Nat) (exponent : Int) : Option Binary64 :=
  let x := ofNat digits
  let magnitude :=
    if exponent < 0 then x.shrink (-exponent).toNat
    else if exponent ≤ 308 then x.mul (powerOfTen exponent.toNat)
    else if x.isZero then some x
    else none
  magnitude.map (withSign negative)

/-! ### Writing -/

/-- The magnitude as a quotient of natural numbers. -/
def magnitude (x : Binary64) : Nat × Nat :=
  scale x.mantissa 1 x.exponent

/-- The quotient `digits * 10 ^ exponent`. -/
def decimalQuotient (digits : Nat) (exponent : Int) : Nat × Nat :=
  if 0 ≤ exponent then (digits * tenTo exponent.toNat, 1) else (digits, tenTo (-exponent).toNat)

/-- Whether `digits * 10 ^ exponent` rounds to the magnitude of `x`. -/
def readsBack (x : Binary64) (digits : Nat) (exponent : Int) : Bool :=
  let (num, den) := decimalQuotient digits exponent
  round false num den == some (x.withSign false)

/-- The exponent of the leading decimal digit of a non-zero double. The least double is above
`10 ^ (-340)`, so counting the digits of its `10 ^ 340`-fold is exact. -/
def leadingPlace (x : Binary64) : Int :=
  let (num, den) := x.magnitude
  ((Nat.toDigits 10 (num * tenTo 340 / den)).length : Int) - 341

/-- The neighbours of `x` among the multiples of `10 ^ exponent` that read back, and of two the nearer
one; at equal distance the even one. -/
def nearestAt (x : Binary64) (exponent : Int) : Option Nat :=
  let (num, den) := x.magnitude
  let (n, d) :=
    if 0 ≤ exponent then (num, den * tenTo exponent.toNat) else (num * tenTo (-exponent).toNat, den)
  let below := n / d
  let rest := 2 * (n % d)
  match x.readsBack below exponent, x.readsBack (below + 1) exponent with
  | true, true => some (if d < rest || (rest == d && below % 2 == 1) then below + 1 else below)
  | true, false => some below
  | false, true => some (below + 1)
  | false, false => none

/-- The shortest decimal with at least `17 - more` digits: seventeen digits always suffice. -/
def shortestFrom (x : Binary64) : (more : Nat) → Nat × Int
  | 0 => (x.mantissa, x.exponent)
  | more + 1 =>
    let exponent := x.leadingPlace - (16 - more)
    match x.nearestAt exponent with
    | some digits => (digits, exponent)
    | none => x.shortestFrom more

/-- Moves trailing zeros of the digits into the exponent. -/
def dropZeros (digits : Nat) (exponent : Int) : Nat × Int :=
  if digits ≠ 0 ∧ digits % 10 = 0 then dropZeros (digits / 10) (exponent + 1) else (digits, exponent)
termination_by digits
decreasing_by omega

/-- The digits and the exponent of the shortest decimal that reads back as the magnitude of a finite,
non-zero double. -/
def shortest (x : Binary64) : Nat × Int :=
  let (digits, exponent) := x.shortestFrom 17
  dropZeros digits exponent

/-- The decimal text of a finite double; an integral one ends in `.0`. -/
def text (x : Binary64) : String :=
  let sign := if x.negative then "-" else ""
  if x.isZero then sign ++ "0.0"
  else
    let (number, exponent) := x.shortest
    let digits := Nat.toDigits 10 number
    let point := (digits.length : Int) + exponent
    let zeros (n : Int) := List.replicate n.toNat '0'
    let body :=
      if 0 ≤ exponent ∧ point ≤ 16 then digits ++ zeros exponent ++ ['.', '0']
      else if 0 < point ∧ point ≤ 16 then
        digits.take point.toNat ++ '.' :: digits.drop point.toNat
      else if -5 < point ∧ point ≤ 0 then '0' :: '.' :: zeros (-point) ++ digits
      else
        let fraction := if digits.length = 1 then [] else '.' :: digits.drop 1
        digits.take 1 ++ fraction ++ 'e' :: (toString (point - 1)).toList
    sign ++ String.ofList body

end SchemaInfer.Binary64
