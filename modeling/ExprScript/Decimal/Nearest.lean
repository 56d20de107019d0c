import ExprScript.Decimal.Digits

/-!
# Decimals read as floats

A decimal is read as the nearest double, and of two equally near ones as the one with the even
significand. The arithmetic is exact: a ratio of natural numbers is scaled to a significand of 53
bits, or fewer below the least normal double, and rounded once.
-/
namespace ExprScript

/-- The quotient rounded to the nearest natural number, a half to the even one. -/
def roundHalfEven (num den : Nat) : Nat :=
  let q := num / den
  let r := num % den
  if 2 * r < den then q
  else if den < 2 * r then q + 1
  else q + q % 2

/-- The quotient of `num` by `den * 2 ^ shift`, as a numerator and a denominator. -/
def scaleRatio (num den : Nat) (shift : Int) : Nat × Nat :=
  if 0 ≤ shift then (num, den * Nat.pow 2 shift.toNat) else (num * Nat.pow 2 (-shift).toNat, den)

/-- The exponent of the unit in the last place of a positive ratio's nearest double. -/
def ulpExponent (num den : Nat) : Int :=
  let guess : Int := (num.log2 : Int) - den.log2 - 53
  let scaled := scaleRatio num den guess
  let exact := if 0x20000000000000 ≤ scaled.1 / scaled.2 then guess + 1 else guess
  max exact (-1074)

/-- The bits of the double nearest to a ratio. A significand that is rounded up to the next power of
two carries into the exponent, and beyond the greatest double into infinity. -/
def nearestBits (num den : Nat) : Nat :=
  if num = 0 then 0
  else
    let exponent := ulpExponent num den
    let scaled := scaleRatio num den exponent
    let bits := (exponent + 1074).toNat * 0x10000000000000 + roundHalfEven scaled.1 scaled.2
    min bits 0x7FF0000000000000

/-- The double nearest to `coefficient * 10 ^ exponent`. A decimal too large or too small by its
exponent alone needs no arithmetic. -/
def nearestFloat (coefficient : Nat) (exponent : Int) : Float :=
  let size : Int := coefficient.log2
  if coefficient = 0 ∨ 3 * exponent + size < -1100 then Float.ofBits 0
  else if 0 ≤ exponent then
    if 400 < exponent then Float.ofBits 0x7FF0000000000000
    else Float.ofBits (nearestBits (coefficient * Nat.pow 10 exponent.toNat) 1).toUInt64
  else Float.ofBits (nearestBits coefficient (Nat.pow 10 (-exponent).toNat)).toUInt64

/-- More digits than any double has, or any middle between two neighbouring doubles, the zeros at
both ends not counted. -/
def decisiveDigits : Nat := 800

/-- The double nearest to a run of digits times a power of ten. Behind the decisive digits it only
matters whether there is anything but zeros, so one digit stands for all of them. -/
def nearestDecimal (digits : List Char) (exponent : Int) : Float :=
  let digits := digits.dropWhile (· = '0')
  let rest := digits.drop decisiveDigits
  if rest.isEmpty then nearestFloat (digitsValue digits) exponent
  else
    let sticky := if rest.all (· = '0') then '0' else '1'
    nearestFloat (appendDigit (digitsValue (digits.take decisiveDigits)) sticky)
      (exponent + rest.length - 1)

/-- The double nearest to a number written with digits before and behind the point. -/
def readFixed (whole fraction : List Char) : Float :=
  nearestDecimal (whole ++ fraction) (-fraction.length)

end ExprScript
