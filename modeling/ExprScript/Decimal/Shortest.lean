/-!
# The shortest decimal of a float

A double stands for every real number that rounds to it. Among the decimals in that interval one on
the coarsest grid of powers of ten is chosen, and on it the one nearest to the double; of two
equally near ones the greater. Reading the decimal gives the double back, and no decimal with
fewer digits does.
-/
namespace ExprScript

/-- The number `coefficient * 10 ^ exponent`. -/
structure Decimal where
  coefficient : Nat
  exponent : Int
  deriving DecidableEq, Inhabited

/-- The interval of numbers that round to a double, in quarters of the unit `2 ^ exponent`; the ends
belong to it if the significand is even. -/
structure RoundingInterval where
  low : Nat
  middle : Nat
  high : Nat
  exponent : Int
  closed : Bool

/-- The interval around the double `significand * 2 ^ exponent`. Below a power of two the next
double is only half as far away. -/
def RoundingInterval.around (significand : Nat) (exponent : Int) : RoundingInterval :=
  let narrow := significand = 0x10000000000000 ∧ -1074 < exponent
  ⟨4 * significand - (if narrow then 1 else 2), 4 * significand, 4 * significand + 2, exponent - 2,
    significand % 2 == 0⟩

/-- The factors that turn quarter units into multiples of `10 ^ power`, as a ratio. -/
def gridRatio (binary power : Int) : Nat × Nat :=
  (Nat.pow 2 binary.toNat * Nat.pow 10 (-power).toNat,
    Nat.pow 2 (-binary).toNat * Nat.pow 10 power.toNat)

/-- The multiple of `10 ^ power` in the interval that is nearest to its middle, if there is one. -/
def RoundingInterval.onGrid? (i : RoundingInterval) (power : Int) : Option Nat :=
  let ratio := gridRatio i.exponent power
  let low := i.low * ratio.1
  let middle := i.middle * ratio.1
  let high := i.high * ratio.1
  let below := middle / ratio.2
  let floor := below * ratio.2
  let ceiling := floor + ratio.2
  let floorFits := low < floor ∨ (i.closed ∧ low = floor)
  let ceilingFits := ceiling < high ∨ (i.closed ∧ ceiling = high)
  if floorFits ∧ (¬ ceilingFits ∨ middle - floor < ceiling - middle) then some below
  else if ceilingFits then some (below + 1)
  else none

/-- The decimal on the first grid with a hit, from `10 ^ power` down to finer ones. -/
def RoundingInterval.coarsest (i : RoundingInterval) : Nat → Int → Decimal
  | 0, power => ⟨0, power⟩
  | steps + 1, power =>
    match i.onGrid? power with
    | some coefficient => ⟨coefficient, power⟩
    | none => i.coarsest steps (power - 1)

/-- The shortest decimal of `significand * 2 ^ exponent`. The search starts above the interval; a
grid of seventeen digits always has a hit. -/
def shortestDecimal (significand : Nat) (exponent : Int) : Decimal :=
  let i := RoundingInterval.around significand exponent
  let bits : Int := i.high.log2 + i.exponent + 1
  i.coarsest 30 ((bits * 30103).fdiv 100000 + 1)

inductive FloatParts where
  | nan
  | infinite (negative : Bool)
  | finite (negative : Bool) (significand : Nat) (exponent : Int)
  deriving DecidableEq

/-- Takes the bits of a double apart. -/
def FloatParts.ofBits (bits : Nat) : FloatParts :=
  let negative : Bool := 0x8000000000000000 ≤ bits
  let biased : Nat := bits / 0x10000000000000 % 0x800
  let fraction : Nat := bits % 0x10000000000000
  if biased = 2047 then
    if fraction = 0 then .infinite negative else .nan
  else if biased = 0 then .finite negative fraction (-1074)
  else .finite negative (0x10000000000000 + fraction) ((biased : Int) - 1075)

def FloatParts.of (x : Float) : FloatParts :=
  FloatParts.ofBits x.toBits.toNat

end ExprScript
