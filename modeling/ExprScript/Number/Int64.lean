/-!
# Arithmetic in 64 bits

A sum, difference, product or negation is exact if it fits into 64 bits and missing otherwise. The
quotient and the remainder are those of the division that rounds toward zero, corrected where the
signs ask for it.
-/
namespace ExprScript

def FitsInt64 (n : Int) : Prop := -0x8000000000000000 ≤ n ∧ n < 0x8000000000000000

instance (n : Int) : Decidable (FitsInt64 n) :=
  inferInstanceAs (Decidable (_ ∧ _))

def int64? (n : Int) : Option Int64 :=
  if FitsInt64 n then some (Int64.ofInt n) else none

theorem toInt_of_int64? {n : Int} {w : Int64} (h : int64? n = some w) : w.toInt = n := by
  unfold int64? at h
  split at h
  · rename_i fits
    cases h
    exact Int64.toInt_ofInt_of_le fits.1 fits.2
  · cases h

theorem int64?_toInt (w : Int64) : int64? w.toInt = some w := by
  have fits : FitsInt64 w.toInt := ⟨Int64.le_toInt w, Int64.toInt_lt w⟩
  simp [int64?, fits]

/-- A word is the result of a calculation exactly if it is the calculated number. -/
theorem int64?_eq_some_iff {n : Int} {w : Int64} : int64? n = some w ↔ w.toInt = n := by
  constructor
  · exact toInt_of_int64?
  · rintro rfl
    exact int64?_toInt w

theorem int64?_eq_none_iff {n : Int} : int64? n = none ↔ ¬ FitsInt64 n := by
  simp [int64?]

namespace Int64Ops

/-- The float closest to a word, of two the one with the even coefficient. -/
def toFloat (x : Int64) : Float :=
  if x < 0 then -(-x).toUInt64.toFloat else x.toUInt64.toFloat

def add? (x y : Int64) : Option Int64 := int64? (x.toInt + y.toInt)

def sub? (x y : Int64) : Option Int64 := int64? (x.toInt - y.toInt)

def mul? (x y : Int64) : Option Int64 := int64? (x.toInt * y.toInt)

def neg? (x : Int64) : Option Int64 := int64? (-x.toInt)

/-- The quotient rounded toward zero, unless the divisor is zero. -/
def div? (x y : Int64) : Option Int64 :=
  if y = 0 then none else int64? (x.toInt.tdiv y.toInt)

/-- What the quotient of `div?` leaves. It is missing where the quotient is, although it is zero
there. -/
def rem? (x y : Int64) : Option Int64 :=
  (div? x y).map fun _ => x % y

/-- The quotient rounded toward negative infinity. -/
def floorDiv? (x y : Int64) : Option Int64 := do
  let quotient ← div? x y
  if x % y ≠ 0 ∧ ¬(x < 0 ↔ y < 0) then sub? quotient 1
  else some quotient

/-- The remainder with the sign of the divisor. -/
def floorMod? (x y : Int64) : Option Int64 := do
  let remainder ← rem? x y
  if remainder ≠ 0 ∧ ¬(remainder < 0 ↔ y < 0) then add? remainder y
  else some remainder

/-- A power with a natural exponent below `2 ^ 32`; greater exponents count as an overflow. From the
exponent 64 on only the bases 0, 1 and -1 have powers that fit. -/
def pow? (x : Int64) (exponent : Nat) : Option Int64 :=
  if 0x100000000 ≤ exponent then none
  else if exponent < 64 then int64? (x.toInt.pow exponent)
  else if x = 0 ∨ x = 1 then some x
  else if x = -1 then some (if exponent % 2 = 0 then 1 else -1)
  else none

end Int64Ops
end ExprScript
