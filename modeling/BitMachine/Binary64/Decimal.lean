import BitMachine.Binary64.Basic

/-! Floating-point numbers in decimal: the fewest digits that read back as the same number. -/

set_option autoImplicit false

namespace BitMachine.Binary64

/-- Whether a quotient is at least a power of ten. -/
def reachesPower (numerator denominator : Nat) (power : Int) : Bool :=
  denominator * Nat.pow 10 power.toNat ≤ numerator * Nat.pow 10 (-power).toNat

/-- The power of ten of a quotient's leading digit. The binary length leaves three powers to
choose from. -/
def leadingPower (numerator denominator : Nat) : Int :=
  let length : Int := (numerator.log2 : Int) - denominator.log2
  let guess := (length - 1) * 30103 / 100000
  if reachesPower numerator denominator (guess + 2) then guess + 2
  else if reachesPower numerator denominator (guess + 1) then guess + 1
  else guess

/-- The multiple of a power of ten next to a quotient, of those on either side that read back as
`x`: the nearer one, or of two equally near the even one. -/
def neighbour? (x : Binary64) (numerator denominator : Nat) (power : Int) : Option Nat :=
  let top := numerator * Nat.pow 10 (-power).toNat
  let bottom := denominator * Nat.pow 10 power.toNat
  let below := top / bottom
  let nearest := roundQuotient top bottom
  let other := if nearest = below then below + 1 else below
  if ofDecimal false nearest power = x then some nearest
  else if ofDecimal false other power = x then some other
  else none

/-- The shortest decimal that reads back as the positive number `x`, as digits and a power of ten.
Seventeen digits always do. -/
def shortest (x : Binary64) (numerator denominator : Nat) : Nat × Int :=
  let leading := leadingPower numerator denominator
  let found := (List.range 17).findSome? fun (count : Nat) =>
    let power := leading - count
    (neighbour? x numerator denominator power).map (·, power)
  found.getD (0, 0)

/-- Digits with a point behind the one of power zero, or with an exponent if the leading digit's
power is below -4 or above 15. -/
def layOut (digits : List Char) (leading : Int) : List Char :=
  if leading < -4 || 15 < leading then
    let sign := if leading < 0 then '-' else '+'
    let size := Nat.toDigits 10 leading.natAbs
    let fraction := if digits.length ≤ 1 then [] else '.' :: digits.drop 1
    digits.take 1 ++ fraction ++ 'e' :: sign :: List.replicate (2 - size.length) '0' ++ size
  else if leading < 0 then
    '0' :: '.' :: List.replicate (leading.natAbs - 1) '0' ++ digits
  else
    let whole := leading.toNat + 1
    let fraction := if digits.length ≤ whole then ['0'] else digits.drop whole
    digits.take whole ++ List.replicate (whole - digits.length) '0' ++ '.' :: fraction

def renderPositive (x : Binary64) (numerator denominator : Nat) : List Char :=
  let (digits, power) := shortest x numerator denominator
  let written := Nat.toDigits 10 digits
  let significant := (written.reverse.dropWhile (· == '0')).reverse
  layOut significant (power + written.length - 1)

def render (x : Binary64) : String :=
  match x with
  | .nan => "nan"
  | .infinite negative => if negative then "-inf" else "inf"
  | .finite negative mantissa exponent =>
    let unsigned :=
      if mantissa = 0 then ['0', '.', '0']
      else renderPositive (.finite false mantissa exponent)
        (mantissa * Nat.pow 2 exponent.toNat) (Nat.pow 2 (-exponent).toNat)
    String.ofList (if negative then '-' :: unsigned else unsigned)

end BitMachine.Binary64
