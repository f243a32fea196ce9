import Unpacking.Number.Binary
import Unpacking.Text.Basic

/-!
Decimal texts of numbers. The shortest text is the one with the fewest digits that still reads
back as the same number; a fixed text has a given number of places. Lengths of time are written in
these ways.
-/

namespace Unpacking

/-- The number `digits * 10 ^ exponent`. -/
structure Decimal where
  digits : Nat
  exponent : Int
deriving DecidableEq, Repr

namespace Decimal

/-- A decimal as a fraction. -/
def ratio (number : Decimal) : Nat × Nat :=
  (number.digits * Nat.pow 10 number.exponent.toNat, Nat.pow 10 (-number.exponent).toNat)

/-- The fractions halfway to the neighbours of a binary number, in units of a quarter of its last
place. Below a power of two the neighbour is nearer. -/
def bounds (number : Binary) : (Nat × Nat) × (Nat × Nat) :=
  let quarter (count : Nat) : Nat × Nat := ({ mantissa := count, exponent := number.exponent - 2 } :
    Binary).ratio
  let below := if number.mantissa = Nat.pow 2 52 then 1 else 2
  (quarter (4 * number.mantissa - below), quarter (4 * number.mantissa + 2))

/-- A fraction is smaller than another one. -/
def less (left right : Nat × Nat) : Bool :=
  left.1 * right.2 < right.1 * left.2

/-- Whether a decimal reads back as a binary number. A bound itself does so if the mantissa is
even. -/
def readsBack (number : Binary) (decimal : Decimal) : Bool :=
  let (low, high) := bounds number
  let value := decimal.ratio
  if number.mantissa % 2 = 0 then !less value low && !less high value
  else less low value && less value high

/-- The number of decimal digits before the point, which is negative or zero for a small
fraction: each zero right behind the point counts as one digit less. -/
def magnitudeUpTo : Nat → Nat → Nat → Int
  | 0, _, _ => 0
  | limit + 1, numerator, denominator =>
    if denominator ≤ numerator then magnitudeUpTo limit numerator (denominator * 10) + 1
    else if numerator * 10 < denominator then magnitudeUpTo limit (numerator * 10) denominator - 1
    else 0

/-- The decimal with a given number of digits that is nearest to a binary number and reads back
as it. -/
def candidate? (number : Binary) (magnitude : Int) (count : Nat) : Option Decimal :=
  let exponent := magnitude - count
  let (numerator, denominator) := number.ratio
  let numerator := numerator * Nat.pow 10 (-exponent).toNat
  let denominator := denominator * Nat.pow 10 exponent.toNat
  let nearest : Decimal := { digits := Binary.roundQuotient numerator denominator, exponent }
  let floor : Decimal := { digits := numerator / denominator, exponent }
  let ceiling : Decimal := { digits := numerator / denominator + 1, exponent }
  [nearest, floor, ceiling].find? (readsBack number)

/-- The shortest decimal that reads back as a binary number. Seventeen digits are always
enough. -/
def shortest (number : Binary) : Decimal :=
  let (numerator, denominator) := number.ratio
  let magnitude := magnitudeUpTo (numerator.log2 + denominator.log2 + 2) numerator denominator
  (((List.range 17).map (· + 1)).findSome? (candidate? number magnitude)).getD
    { digits := 0, exponent := 0 }

/-- The decimal text of a natural number. -/
def ofNat (number : Nat) : Text :=
  Nat.toDigits 10 number

/-- The text of a decimal. A point is written even if nothing stands behind it, and a power of ten
is split off outside of a range of sixteen digits before and five zeros behind the point. -/
def text (number : Decimal) : Text :=
  let digits := ofNat number.digits
  let point : Int := digits.length + number.exponent
  if number.digits = 0 then "0.0"
  else if 0 ≤ number.exponent && point ≤ 16 then
    digits ++ List.replicate number.exponent.toNat '0' ++ ".0"
  else if 0 < point && point ≤ 16 then
    digits.take point.toNat ++ "." ++ digits.drop point.toNat
  else if -5 < point && point ≤ 0 then
    "0." ++ List.replicate (-point).toNat '0' ++ digits
  else
    let power := point - 1
    digits.take 1 ++ (if digits.length = 1 then [] else '.' :: digits.drop 1) ++ "e" ++
      (if power < 0 then ['-'] else []) ++ ofNat power.natAbs

/-- The text of a binary number with two places behind the point. -/
def twoPlaces (number : Binary) : Text :=
  let (numerator, denominator) := number.ratio
  let hundredths := Binary.roundQuotient (numerator * 100) denominator
  let places := ofNat (hundredths % 100)
  ofNat (hundredths / 100) ++ "." ++ List.replicate (2 - places.length) '0' ++ places

end Decimal

/-- A length of time in nanoseconds. -/
structure Duration where
  nanoseconds : Nat := 0
deriving DecidableEq, Repr

namespace Duration

/-- The length in seconds. The whole seconds and the rest are rounded apart, and so is their
sum. -/
def seconds (duration : Duration) : Binary :=
  (Binary.ofRatio (duration.nanoseconds / Nat.pow 10 9) 1).add
    (Binary.ofRatio (duration.nanoseconds % Nat.pow 10 9) (Nat.pow 10 9))

/-- The shortest text of the length in seconds. -/
def shortText (duration : Duration) : Text :=
  (Decimal.shortest duration.seconds).text

/-- The length in seconds with two places. -/
def fixedText (duration : Duration) : Text :=
  Decimal.twoPlaces duration.seconds

end Duration

end Unpacking
