import ExprScript.Value.Operators
import Mathlib.Data.Rat.Floor

/-!
# Whole numbers are calculated exactly

Ints and bools are whole numbers to the operators. An operator gives the exact result if that fits
into 64 bits and reports an overflow if not. There are two exceptions, where an overflow is reported
although the result fits: the remainder of the least number by -1, whose quotient does not fit, and
powers of 0, 1 and -1 with an exponent that does not fit into 32 bits.
-/
namespace ExprScript

def Value.whole? : Value → Option Int
  | .int n => some n.toInt
  | .bool b => some b.toInt
  | _ => none

/-- What an operator gives for two whole numbers by the laws of arithmetic. A quotient is rounded
down, and a remainder is what the rounded quotient leaves. -/
inductive ArithOp.Exact : ArithOp → Int → Int → Int → Prop
  | add (x y : Int) : Exact .add x y (x + y)
  | sub (x y : Int) : Exact .sub x y (x - y)
  | mul (x y : Int) : Exact .mul x y (x * y)
  | floorDiv (x : Int) {y : Int} (hy : y ≠ 0) : Exact .floorDiv x y ⌊(x / y : ℚ)⌋
  | mod (x : Int) {y : Int} (hy : y ≠ 0) : Exact .mod x y (x - y * ⌊(x / y : ℚ)⌋)
  | pow (x : Int) (exponent : Nat) : Exact .pow x exponent (x ^ exponent)

/-- Whether an overflow is reported without regard to the result. -/
def ArithOp.OverflowsEarly (op : ArithOp) (x y : Int) : Prop :=
  match op with
  | .mod => x = -0x8000000000000000 ∧ y = -1
  | .pow => x.natAbs ≤ 1 ∧ 0x100000000 ≤ y
  | _ => False

/-! ## Words -/

theorem fitsInt64_toInt (w : Int64) : FitsInt64 w.toInt := ⟨Int64.le_toInt w, Int64.toInt_lt w⟩

/-- The quotient that is rounded toward negative infinity is the floor of the fraction. -/
theorem floor_div_eq_fdiv (x y : Int) : ⌊(x / y : ℚ)⌋ = x.fdiv y := by
  obtain ⟨n, rfl | rfl⟩ := y.eq_nat_or_neg
  · rw [Int.fdiv_eq_ediv_of_nonneg _ (Int.natCast_nonneg n)]
    exact_mod_cast Rat.floor_intCast_div_natCast x n
  · have hflipped : (x / ((-n : ℤ) : ℚ) : ℚ) = ((-x : ℤ) : ℚ) / n := by
      push_cast
      rw [div_neg, neg_div]
    rw [hflipped, Rat.floor_intCast_div_natCast, ← Int.neg_fdiv_neg, neg_neg,
      Int.fdiv_eq_ediv_of_nonneg _ (Int.natCast_nonneg n)]

theorem fdiv_eq_tdiv_sub {x y : Int} (hy : y ≠ 0) :
    x.fdiv y =
      if x.tmod y ≠ 0 ∧ ¬(x < 0 ↔ y < 0) then x.tdiv y - 1 else x.tdiv y := by
  rw [Int.fdiv_eq_tdiv]
  by_cases hdvd : y ∣ x
  · have hexact : x.tmod y = 0 := Int.tmod_eq_zero_of_dvd hdvd
    simp [hdvd, hexact]
  · have hrest : x.tmod y ≠ 0 := fun h => hdvd (Int.dvd_of_tmod_eq_zero h)
    rw [if_neg hdvd]
    rcases lt_or_gt_of_ne hy with hneg | hpos
    · simp only [Int.sign_eq_neg_one_of_neg hneg]
      split_ifs <;> omega
    · simp only [Int.sign_eq_one_of_pos hpos]
      split_ifs <;> omega

/-- A remainder of the quotient that is rounded toward zero has the sign of the dividend. -/
theorem tmod_neg_iff {x y : Int} (hrest : x.tmod y ≠ 0) : x.tmod y < 0 ↔ x < 0 := by
  constructor
  · intro hneg
    by_contra hx
    exact absurd (Int.tmod_nonneg y (Int.not_lt.mp hx)) (Int.not_le.mpr hneg)
  · intro hx
    have hsign : (-x).tmod y = -x.tmod y := Int.neg_tmod x y
    have hflipped : 0 ≤ (-x).tmod y := Int.tmod_nonneg y (by omega)
    omega

theorem fmod_eq_tmod_add {x y : Int} (hy : y ≠ 0) :
    x.fmod y =
      if x.tmod y ≠ 0 ∧ ¬(x.tmod y < 0 ↔ y < 0) then x.tmod y + y else x.tmod y := by
  have hsign : x.tmod y ≠ 0 ∧ ¬(x.tmod y < 0 ↔ y < 0) ↔ x.tmod y ≠ 0 ∧ ¬(x < 0 ↔ y < 0) :=
    and_congr_right fun hrest => by rw [tmod_neg_iff hrest]
  rw [if_congr hsign rfl rfl, Int.fmod_def, fdiv_eq_tdiv_sub hy]
  split
  · rw [Int.mul_sub, Int.mul_one, Int.tmod_def]
    omega
  · rw [Int.tmod_def]

/-- No quotient of words leaves 64 bits but that of the least word by -1. -/
theorem fitsInt64_tdiv {x y : Int} (hx : FitsInt64 x)
    (hleast : ¬(x = -0x8000000000000000 ∧ y = -1)) : FitsInt64 (x.tdiv y) := by
  have habs := Int.natAbs_tdiv x y
  unfold FitsInt64 at hx ⊢
  by_cases hy : y.natAbs ≤ 1
  · obtain rfl | rfl | rfl : y = 0 ∨ y = 1 ∨ y = -1 := by omega
    · simp
    · simpa using hx
    · rw [Int.tdiv_neg, Int.tdiv_one]
      omega
  · have hhalf : x.natAbs.div y.natAbs ≤ x.natAbs / 2 :=
      Nat.div_le_div_left (by omega) (by decide)
    omega

/-- From the exponent 64 on, only the powers of 0, 1 and -1 fit. -/
theorem not_fitsInt64_pow {x : Int} {exponent : Nat} (hx : 1 < x.natAbs) (hlarge : 64 ≤ exponent) :
    ¬FitsInt64 (x ^ exponent) := by
  have hpow : 2 ^ 64 ≤ (x ^ exponent).natAbs := by
    rw [Int.natAbs_pow]
    exact Nat.le_trans (Nat.pow_le_pow_left hx 64) (Nat.pow_le_pow_right (by omega) hlarge)
  unfold FitsInt64
  omega

/-! ## Each operator -/

namespace Int64Ops

variable {x y : Int64}

theorem neg_iff_toInt (w : Int64) : w < 0 ↔ w.toInt < 0 := by
  rw [Int64.lt_iff_toInt_lt, Int64.toInt_zero]

theorem rem_ne_zero_iff : x % y ≠ 0 ↔ x.toInt.tmod y.toInt ≠ 0 := by
  rw [ne_eq, ne_eq, ← Int64.toInt_inj, Int64.toInt_mod, Int64.toInt_zero]

theorem toInt_ne_zero_iff : y.toInt ≠ 0 ↔ y ≠ 0 := by
  rw [ne_eq, ne_eq, ← Int64.toInt_inj, Int64.toInt_zero]

/-- The quotient rounded down is missing exactly if it does not fit. -/
theorem floorDiv?_eq (hy : y.toInt ≠ 0) : floorDiv? x y = int64? (x.toInt.fdiv y.toInt) := by
  unfold floorDiv? div?
  rw [if_neg (toInt_ne_zero_iff.mp hy)]
  by_cases hfits : FitsInt64 (x.toInt.tdiv y.toInt)
  · obtain ⟨quotient, hquotient⟩ : ∃ q : Int64, q.toInt = x.toInt.tdiv y.toInt :=
      ⟨_, Int64.toInt_ofInt_of_le hfits.1 hfits.2⟩
    simp only [fdiv_eq_tdiv_sub hy, ← hquotient, int64?_toInt, Option.bind_eq_bind,
      Option.bind_some, rem_ne_zero_iff, neg_iff_toInt, sub?, Int64.toInt_one]
    split
    · rfl
    · exact (int64?_toInt quotient).symm
  · have hleast := mt (fitsInt64_tdiv (fitsInt64_toInt x)) hfits
    obtain ⟨hx, hy⟩ := not_not.mp hleast
    rw [hx, hy]
    rfl

/-- The remainder with the sign of the divisor always fits, and is missing exactly if the quotient
rounded toward zero is. -/
theorem floorMod?_eq (hy : y.toInt ≠ 0) :
    floorMod? x y =
      (int64? (x.toInt.tdiv y.toInt)).bind fun _ => int64? (x.toInt.fmod y.toInt) := by
  unfold floorMod? rem? div?
  rw [if_neg (toInt_ne_zero_iff.mp hy)]
  cases int64? (x.toInt.tdiv y.toInt) with
  | none => rfl
  | some quotient =>
    have hrem : (x % y).toInt = x.toInt.tmod y.toInt := Int64.toInt_mod x y
    simp only [Option.map_some, Option.bind_eq_bind, Option.bind_some, rem_ne_zero_iff,
      neg_iff_toInt, hrem, fmod_eq_tmod_add hy, add?]
    split
    · rfl
    · rw [← hrem, int64?_toInt]

theorem floorMod?_exact (hy : y.toInt ≠ 0)
    (hearly : ¬ArithOp.mod.OverflowsEarly x.toInt y.toInt) :
    floorMod? x y = int64? (x.toInt.fmod y.toInt) := by
  rw [floorMod?_eq hy, int64?, if_pos (fitsInt64_tdiv (fitsInt64_toInt x) hearly)]
  rfl

theorem toInt_neg_one : (-1 : Int64).toInt = -1 := rfl

theorem pow?_eq {exponent : Nat} (hearly : ¬ArithOp.pow.OverflowsEarly x.toInt exponent) :
    pow? x exponent = int64? (x.toInt ^ exponent) := by
  have hexponent : ¬(x.toInt.natAbs ≤ 1 ∧ 0x100000000 ≤ exponent) := by
    simpa [ArithOp.OverflowsEarly] using hearly
  unfold pow?
  by_cases hsmall : exponent < 64
  · rw [if_neg (by omega), if_pos hsmall]
    rfl
  by_cases hbase : x.toInt.natAbs ≤ 1
  · rw [if_neg (fun hhuge => hexponent ⟨hbase, hhuge⟩), if_neg hsmall]
    have hcases : x = 0 ∨ x = 1 ∨ x = -1 := by
      simp only [← Int64.toInt_inj, Int64.toInt_zero, Int64.toInt_one, toInt_neg_one]
      omega
    rcases hcases with rfl | rfl | rfl
    · rw [if_pos (.inl rfl), Int64.toInt_zero, zero_pow (by omega)]
      rfl
    · rw [if_pos (.inr rfl), Int64.toInt_one, one_pow]
      rfl
    · rw [if_neg (by decide), if_pos rfl, toInt_neg_one]
      rcases Nat.even_or_odd exponent with heven | hodd
      · rw [heven.neg_one_pow, if_pos (Nat.even_iff.mp heven)]
        rfl
      · rw [hodd.neg_one_pow, if_neg (by rw [Nat.odd_iff.mp hodd]; decide)]
        rfl
  · have hlarge := not_fitsInt64_pow (Nat.lt_of_not_le hbase) (Nat.le_of_not_lt hsmall)
    have hunit : ¬(x = 0 ∨ x = 1) := by
      rintro (rfl | rfl) <;> exact hbase (by decide)
    have hminus : x ≠ -1 := by
      rintro rfl
      exact hbase (by decide)
    rw [int64?_eq_none_iff.mpr hlarge, if_neg hsmall, if_neg hunit, if_neg hminus, ite_self]

end Int64Ops

namespace Operate

variable {op : ArithOp} {x y n : Int}

/-- Two ints give the exact result as far as it fits. -/
theorem ints?_exact {a b : Int64} (hexact : op.Exact a.toInt b.toInt n)
    (hearly : ¬op.OverflowsEarly a.toInt b.toInt) : ints? op a b = (int64? n).map .int := by
  generalize hx : a.toInt = x at hexact hearly
  generalize hy : b.toInt = y at hexact hearly
  cases hexact with
  | add | sub | mul =>
    subst hx hy
    rfl
  | floorDiv x hne =>
    subst hx hy
    rw [floor_div_eq_fdiv, ← Int64Ops.floorDiv?_eq hne]
    rfl
  | mod x hne =>
    subst hx hy
    rw [floor_div_eq_fdiv, ← Int.fmod_def, ← Int64Ops.floorMod?_exact hne hearly]
    rfl
  | pow x exponent =>
    subst hx
    have hnatural : ¬b < 0 := by
      rw [Int64.lt_iff_toInt_lt, hy, Int64.toInt_zero]
      omega
    rw [← Int64Ops.pow?_eq hearly]
    simp [ints?, hnatural, hy]

theorem numbers_exact {a b : Int64} (hexact : op.Exact a.toInt b.toInt n)
    (hearly : ¬op.OverflowsEarly a.toInt b.toInt) (span : Span) :
    numbers op (.int a) (.int b) span =
      if FitsInt64 n then .ok (.int (Int64.ofInt n))
      else .error (Fault.overflow span op.symbol) := by
  simp only [numbers, ints?_exact hexact hearly, int64?]
  by_cases hfits : FitsInt64 n
  · simp only [if_pos hfits, Option.map_some, Number.toValue]
  · simp only [if_neg hfits, Option.map_none]

/-! ## Values -/

/-- A value that counts as a whole number is that number to the operators. -/
theorem number_of_whole {v : Value} (h : v.whole? = some x) :
    ∃ a : Int64, a.toInt = x ∧ v.toNumber? = some (.int a) ∧
      ∃ d, v.toDividend? = some d ∧ d.toNumber = .int a := by
  cases v with
  | int a =>
    cases h
    exact ⟨a, rfl, rfl, _, rfl, rfl⟩
  | bool b =>
    cases h
    exact ⟨if b then 1 else 0, by cases b <;> rfl, rfl, _, rfl, rfl⟩
  | _ => cases h

theorem binary_of_whole {left right : Operand} {d : Dividend} {b : Number}
    (hleft : left.value.whole? = some x) (hright : right.value.whole? = some y)
    (hdividend : left.value.toDividend? = some d) (hnumber : right.value.toNumber? = some b) :
    binary (.arith op) left right = numeric op d b (left.span.merge right.span) := by
  obtain ⟨v, span⟩ := left
  obtain ⟨w, span'⟩ := right
  cases v <;> cases hleft <;> cases w <;> cases hright <;> cases hdividend <;> cases hnumber <;>
    cases op <;> rfl

/-- A divisor of which there is an exact quotient is not zero, so that no number is put in the place
of the result. -/
theorem numeric_of_exact {d : Dividend} {a b : Int64} (hd : d.toNumber = .int a)
    (hexact : op.Exact a.toInt b.toInt n) (span : Span) :
    numeric op d (.int b) span = MonadExcept.ofExcept (numbers op (.int a) (.int b) span) := by
  have hzero : ∀ h : b.toInt ≠ 0, (Number.int b).isZero = false := by
    intro h
    simpa [Number.isZero, ← Int64.toInt_inj] using h
  unfold numeric
  rw [hd]
  generalize hx : a.toInt = x at hexact
  generalize hy : b.toInt = y at hexact
  cases hexact with
  | add | sub | mul | pow => cases (Number.int b).isZero <;> rfl
  | floorDiv x hne | mod x hne =>
    rw [hzero (hy ▸ hne)]

end Operate

/-- Whole numbers are calculated exactly: the result is the int that it should be, and an overflow
is reported exactly if there is no such int, unless it is reported early. -/
theorem whole_numbers_exact {op : ArithOp} {left right : Operand} {x y n : Int}
    (hleft : left.value.whole? = some x) (hright : right.value.whole? = some y)
    (hexact : op.Exact x y n) (hearly : ¬op.OverflowsEarly x y) (log : Array Diagnostic) :
    Operate.binary (.arith op) left right log =
      if FitsInt64 n then .ok (.int (Int64.ofInt n)) log
      else .error (Fault.overflow (left.span.merge right.span) op.symbol) log := by
  obtain ⟨a, rfl, -, d, hdividend, hd⟩ := Operate.number_of_whole hleft
  obtain ⟨b, rfl, hnumber, -⟩ := Operate.number_of_whole hright
  rw [Operate.binary_of_whole hleft hright hdividend hnumber, Operate.numeric_of_exact hd hexact,
    Operate.numbers_exact hexact hearly]
  split <;> rfl

/-- The quotient of -7 by 2 is rounded down. -/
theorem minus_seven_floorDiv_two :
    ArithOp.floorDiv.Exact (-7) 2 (-4) ∧ FitsInt64 (-4) ∧
      Operate.binary (.arith .floorDiv) ⟨.int (-7), {}⟩ ⟨.int 2, {}⟩ #[] = .ok (.int (-4)) #[] := by
  have hexact : ArithOp.floorDiv.Exact (-7) 2 (-4) := by
    have hquotient : ⌊(((-7 : Int) : ℚ) / ((2 : Int) : ℚ))⌋ = -4 := floor_div_eq_fdiv (-7) 2
    exact hquotient ▸ .floorDiv (-7) (by decide)
  refine ⟨hexact, by decide, ?_⟩
  rw [whole_numbers_exact rfl rfl hexact not_false, if_pos (by decide)]
  rfl

/-- The remainder of the least number by -1 is 0, and every power of 1 is 1. Both fit, and both are
reported as overflows. -/
theorem fitting_results_overflow :
    (ArithOp.mod.Exact (-0x8000000000000000) (-1) 0 ∧ FitsInt64 0 ∧
      Operate.binary (.arith .mod) ⟨.int Int64.minValue, {}⟩ ⟨.int (-1), {}⟩ #[] =
        .error (Fault.overflow {} ArithOp.mod.symbol) #[]) ∧
    (ArithOp.pow.Exact 1 0x100000000 1 ∧ FitsInt64 1 ∧
      Operate.binary (.arith .pow) ⟨.int 1, {}⟩ ⟨.int 0x100000000, {}⟩ #[] =
        .error (Fault.overflow {} ArithOp.pow.symbol) #[]) := by
  have hmod : ArithOp.mod.Exact (-0x8000000000000000) (-1) 0 := by
    have h := ArithOp.Exact.mod (-0x8000000000000000) (y := -1) (by decide)
    rwa [floor_div_eq_fdiv] at h
  have hpow : ArithOp.pow.Exact 1 0x100000000 1 := by
    have h := ArithOp.Exact.pow 1 0x100000000
    rwa [one_pow] at h
  exact ⟨⟨hmod, by decide, rfl⟩, hpow, by decide, rfl⟩

end ExprScript
