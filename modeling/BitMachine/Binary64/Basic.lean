/-! Floating-point numbers of 64 bits as exact data: a sign, a mantissa and a power of two. -/

set_option autoImplicit false

namespace BitMachine

/-- A finite number is `mantissa * 2 ^ exponent` with a sign. Its mantissa has 53 binary digits, or
fewer if the exponent is the least one. -/
inductive Binary64 where
  | finite (negative : Bool) (mantissa : Nat) (exponent : Int)
  | infinite (negative : Bool)
  | nan
deriving DecidableEq, Repr, Inhabited

namespace Binary64

/-- The exponent of the numbers closest to zero. -/
def leastExponent : Int := -1074

/-- The exponent of the numbers farthest from zero. -/
def greatestExponent : Int := 971

/-- The least mantissa with 53 binary digits. -/
def fullMantissa : Nat := 4503599627370496

/-- The quotient as a whole number: the nearest one, a half going to the even neighbour. -/
def roundQuotient (numerator denominator : Nat) : Nat :=
  let quotient := numerator / denominator
  let twiceRest := 2 * (numerator % denominator)
  if twiceRest < denominator || (twiceRest == denominator && quotient % 2 == 0) then quotient
  else quotient + 1

/-- The exponent at which a quotient has a full mantissa, if that exponent is not too low. -/
def exponentOf (numerator denominator : Nat) : Int :=
  let guess : Int := (numerator.log2 : Int) - denominator.log2 - 52
  let full := fullMantissa * denominator * Nat.pow 2 guess.toNat ≤
    numerator * Nat.pow 2 (-guess).toNat
  max leastExponent (if full then guess else guess - 1)

/-- The number nearest to a quotient. -/
def ofQuotient (negative : Bool) (numerator denominator : Nat) : Binary64 :=
  if numerator = 0 then .finite negative 0 leastExponent
  else
    let exponent := exponentOf numerator denominator
    let mantissa := roundQuotient (numerator * Nat.pow 2 (-exponent).toNat)
      (denominator * Nat.pow 2 exponent.toNat)
    let (mantissa, exponent) :=
      if mantissa = 2 * fullMantissa then (fullMantissa, exponent + 1) else (mantissa, exponent)
    if greatestExponent < exponent then .infinite negative
    else .finite negative mantissa exponent

/-- The number nearest to `digits * 10 ^ power`. Powers far out of range are settled by the size of
the digits. -/
def ofDecimal (negative : Bool) (digits : Nat) (power : Int) : Binary64 :=
  if digits = 0 || power + digits.log2 < -400 then .finite negative 0 leastExponent
  else if 400 < power then .infinite negative
  else ofQuotient negative (digits * Nat.pow 10 power.toNat) (Nat.pow 10 (-power).toNat)

def fraction? : Binary64 → Option (Int × Nat)
  | .finite negative mantissa exponent =>
    let size : Int := mantissa * Nat.pow 2 exponent.toNat
    some (if negative then -size else size, Nat.pow 2 (-exponent).toNat)
  | _ => none

/-- The whole number that a number equals, if it equals one. -/
def whole? (x : Binary64) : Option Int :=
  match x.fraction? with
  | some (numerator, denominator) =>
    if numerator % denominator = 0 then some (numerator / denominator) else none
  | none => none

def isBelow (x : Binary64) (bound : Int) : Bool :=
  match x.fraction? with
  | some (numerator, denominator) => decide (numerator < bound * denominator)
  | none => x == .infinite true

def isAtLeast (x : Binary64) (bound : Int) : Bool :=
  match x.fraction? with
  | some (numerator, denominator) => decide (bound * denominator ≤ numerator)
  | none => x == .infinite false

/-- The rounded sum of a number and a whole number. -/
def add (x : Binary64) (n : Int) : Binary64 :=
  match x.fraction? with
  | some (numerator, denominator) =>
    let sum := numerator + n * denominator
    ofQuotient (sum < 0) sum.natAbs denominator
  | none => x

end Binary64

end BitMachine
