import ExprScript.Decimal.Nearest
import ExprScript.Decimal.Shortest

/-!
# Remainders of floats

The remainder of a division that rounds toward zero is exact: both operands are multiples of the
finer one's unit, so it is the remainder of two natural numbers and no rounding takes place.
-/
namespace ExprScript

/-- The double `n * 2 ^ exponent`, which has at most 53 significant bits. -/
def floatOfScaled (negative : Bool) (n : Nat) (exponent : Int) : Float :=
  let bits := nearestBits (n * Nat.pow 2 exponent.toNat) (Nat.pow 2 (-exponent).toNat)
  Float.ofBits (bits + if negative then 0x8000000000000000 else 0).toUInt64

/-- What a quotient rounded toward zero leaves; it has the sign of `x`. -/
def floatRemainder (x y : Float) : Float :=
  match FloatParts.of x, FloatParts.of y with
  | .nan, _ | _, .nan | .infinite _, _ => Float.ofBits 0x7FF8000000000000
  | .finite .., .infinite _ => x
  | .finite negative m p, .finite _ n q =>
    if n = 0 then Float.ofBits 0x7FF8000000000000
    else
      let unit := min p q
      let r := (m * Nat.pow 2 (p - unit).toNat) % (n * Nat.pow 2 (q - unit).toNat)
      floatOfScaled negative r unit

/-- The remainder with the sign of the divisor, unless it is zero. -/
def floatFloorMod (x y : Float) : Float :=
  let r := floatRemainder x y
  if r != 0 && (r < 0) != (y < 0) then r + y else r

end ExprScript
