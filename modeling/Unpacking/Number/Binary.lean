/-!
Numbers with a binary fraction of 53 bits. A ratio is rounded to the nearest of them, and a tie
goes to the even neighbour. The range of exponents is not limited, which is right for times.
-/

namespace Unpacking

/-- The number `mantissa * 2 ^ exponent`. -/
structure Binary where
  mantissa : Nat
  exponent : Int
deriving DecidableEq, Repr

namespace Binary

/-- A quotient rounded to the nearest natural number, a tie going to the even one. -/
def roundQuotient (numerator denominator : Nat) : Nat :=
  let quotient := numerator / denominator
  let twice := 2 * (numerator % denominator)
  if twice < denominator then quotient
  else if denominator < twice then quotient + 1
  else quotient + quotient % 2

/-- A fraction with a power of two taken out of it. -/
def scale (numerator denominator : Nat) (exponent : Int) : Nat × Nat :=
  (numerator * Nat.pow 2 (-exponent).toNat, denominator * Nat.pow 2 exponent.toNat)

/-- The exponent that leaves a mantissa of 53 bits for a fraction. -/
def exponentOf (numerator denominator : Nat) : Int :=
  let guess : Int := (numerator.log2 : Int) - (denominator.log2 : Int) - 53
  let (scaled, unit) := scale numerator denominator guess
  if Nat.pow 2 53 ≤ scaled / unit then guess + 1 else guess

/-- The number nearest to a fraction. -/
def ofRatio (numerator denominator : Nat) : Binary :=
  if numerator = 0 then { mantissa := 0, exponent := 0 }
  else
    let exponent := exponentOf numerator denominator
    let (scaled, unit) := scale numerator denominator exponent
    let mantissa := roundQuotient scaled unit
    if mantissa = Nat.pow 2 53 then { mantissa := Nat.pow 2 52, exponent := exponent + 1 }
    else { mantissa, exponent }

/-- The number as a fraction. -/
def ratio (number : Binary) : Nat × Nat :=
  (number.mantissa * Nat.pow 2 number.exponent.toNat, Nat.pow 2 (-number.exponent).toNat)

/-- The number nearest to a sum. -/
def add (left right : Binary) : Binary :=
  let (leftTop, leftBottom) := left.ratio
  let (rightTop, rightBottom) := right.ratio
  ofRatio (leftTop * rightBottom + rightTop * leftBottom) (leftBottom * rightBottom)

end Binary

end Unpacking
