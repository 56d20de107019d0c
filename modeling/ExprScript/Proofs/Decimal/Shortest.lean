import Mathlib.Algebra.Order.Field.Power
import Mathlib.Data.Rat.Floor
import Mathlib.Tactic.FieldSimp
import Mathlib.Tactic.Linarith
import Mathlib.Tactic.Positivity
import ExprScript.Decimal.Shortest

/-!
# Shortest decimals lie where they round to their float

The search for a decimal goes through grids of powers of ten. A grid on which a number lies inside
the interval has a hit, what it gives lies in the interval, and the search comes to such a grid for
every finite double. So the shortest decimal is never farther from the double than the ends of the
interval are.
-/
namespace ExprScript

def Decimal.value (d : Decimal) : ℚ := d.coefficient * 10 ^ d.exponent

/-- The exact size of a double with a significand and an exponent. -/
def binaryValue (significand : Nat) (exponent : Int) : ℚ := significand * 2 ^ exponent

/-- The ranges of significands and exponents that doubles other than zero have. -/
structure IsDouble (significand : Nat) (exponent : Int) : Prop where
  pos : 0 < significand
  lt : significand < 2 ^ 53
  least : -1074 ≤ exponent
  greatest : exponent ≤ 971
  /-- Only the least exponent has significands with fewer than 53 bits. -/
  normal : exponent = -1074 ∨ 2 ^ 52 ≤ significand

/-! ## Grids -/

theorem exists_gridRatio_scale (binary power : Int) :
    ∃ scale : ℚ, 0 < scale ∧ ((gridRatio binary power).1 : ℚ) = 2 ^ binary * scale ∧
      ((gridRatio binary power).2 : ℚ) = 10 ^ power * scale := by
  have hsplit : ∀ (base : ℚ) (_ : 0 < base) (e : Int),
      base ^ e.toNat = base ^ e * base ^ (-e).toNat := by
    intro base hbase e
    rw [← zpow_natCast, ← zpow_natCast, ← zpow_add₀ hbase.ne']
    congr 1
    omega
  refine ⟨2 ^ (-binary).toNat * 10 ^ (-power).toNat, by positivity, ?_, ?_⟩
  · simp only [gridRatio, Nat.pow_eq, Nat.cast_mul, Nat.cast_pow, Nat.cast_ofNat]
    rw [hsplit 2 (by norm_num) binary, mul_assoc]
  · simp only [gridRatio, Nat.pow_eq, Nat.cast_mul, Nat.cast_pow, Nat.cast_ofNat]
    rw [hsplit 10 (by norm_num) power]
    ring

variable {binary power : Int} {quarters multiple : Nat}

theorem gridRatio_le_iff :
    quarters * (gridRatio binary power).1 ≤ multiple * (gridRatio binary power).2 ↔
      (quarters : ℚ) * 2 ^ binary ≤ multiple * 10 ^ power := by
  obtain ⟨scale, hscale, hbinary, hpower⟩ := exists_gridRatio_scale binary power
  rw [← Nat.cast_le (α := ℚ), Nat.cast_mul, Nat.cast_mul, hbinary, hpower, ← mul_assoc,
    ← mul_assoc, mul_le_mul_iff_left₀ hscale]

theorem le_gridRatio_iff :
    multiple * (gridRatio binary power).2 ≤ quarters * (gridRatio binary power).1 ↔
      (multiple : ℚ) * 10 ^ power ≤ quarters * 2 ^ binary := by
  obtain ⟨scale, hscale, hbinary, hpower⟩ := exists_gridRatio_scale binary power
  rw [← Nat.cast_le (α := ℚ), Nat.cast_mul, Nat.cast_mul, hbinary, hpower, ← mul_assoc,
    ← mul_assoc, mul_le_mul_iff_left₀ hscale]

theorem gridRatio_pos (binary power : Int) : 0 < (gridRatio binary power).2 :=
  Nat.mul_pos (Nat.pow_pos (by decide)) (Nat.pow_pos (by decide))

namespace RoundingInterval

variable {i : RoundingInterval}

def lower (i : RoundingInterval) : ℚ := i.low * 2 ^ i.exponent

def upper (i : RoundingInterval) : ℚ := i.high * 2 ^ i.exponent

/-- Whether a decimal lies in the interval or at its ends. -/
def Holds (i : RoundingInterval) (d : Decimal) : Prop := i.lower ≤ d.value ∧ d.value ≤ i.upper

theorem holds_of_onGrid? (hlow : i.low ≤ i.middle) (hhigh : i.middle ≤ i.high)
    (h : i.onGrid? power = some multiple) : i.Holds ⟨multiple, power⟩ := by
  unfold Holds lower upper Decimal.value
  dsimp only
  rw [← gridRatio_le_iff, ← le_gridRatio_iff]
  have htens := gridRatio_pos i.exponent power
  unfold onGrid? at h
  generalize gridRatio i.exponent power = ratio at h htens
  have hlow := Nat.mul_le_mul_right ratio.1 hlow
  have hhigh := Nat.mul_le_mul_right ratio.1 hhigh
  have hfloor := Nat.div_mul_le_self (i.middle * ratio.1) ratio.2
  have hceiling := Nat.lt_div_mul_add htens (a := i.middle * ratio.1)
  dsimp only at h
  split_ifs at h with hbelow habove
  · obtain rfl := Option.some.inj h
    omega
  · obtain rfl := Option.some.inj h
    rw [Nat.succ_mul]
    omega

/-- A grid has a hit if one of its numbers lies inside the interval. -/
theorem exists_onGrid? (inside : Nat) (hlower : i.lower < inside * 10 ^ power)
    (hupper : inside * 10 ^ power < i.upper) : ∃ multiple, i.onGrid? power = some multiple := by
  have hlow : i.low * (gridRatio i.exponent power).1 < inside * (gridRatio i.exponent power).2 :=
    Nat.lt_of_not_le fun h => hlower.not_ge (le_gridRatio_iff.mp h)
  have hhigh : inside * (gridRatio i.exponent power).2 < i.high * (gridRatio i.exponent power).1 :=
    Nat.lt_of_not_le fun h => hupper.not_ge (gridRatio_le_iff.mp h)
  unfold onGrid?
  generalize gridRatio i.exponent power = ratio at hlow hhigh
  dsimp only
  have hbeside : inside ≤ i.middle * ratio.1 / ratio.2 ∨
      i.middle * ratio.1 / ratio.2 + 1 ≤ inside := by omega
  have hfits : i.low * ratio.1 < i.middle * ratio.1 / ratio.2 * ratio.2 ∨
      i.middle * ratio.1 / ratio.2 * ratio.2 + ratio.2 < i.high * ratio.1 := by
    rcases hbeside with hbelow | habove
    · exact .inl (hlow.trans_le (Nat.mul_le_mul_right _ hbelow))
    · rw [← Nat.succ_mul]
      exact .inr ((Nat.mul_le_mul_right _ habove).trans_lt hhigh)
  split_ifs with hbelow habove
  · exact ⟨_, rfl⟩
  · exact ⟨_, rfl⟩
  · rcases hfits with hfloor | hceiling
    · exact absurd ⟨.inl hfloor, .inl habove⟩ hbelow
    · exact absurd (.inl hceiling) habove

theorem coarsest_eq {steps : Nat} {hit : Int} (hfirst : hit ≤ power) (hlast : power < hit + steps)
    (h : ∃ multiple, i.onGrid? hit = some multiple) :
    ∃ multiple place, hit ≤ place ∧ i.onGrid? place = some multiple ∧
      i.coarsest steps power = ⟨multiple, place⟩ := by
  induction steps generalizing power with
  | zero => omega
  | succ steps ih =>
    rw [coarsest]
    cases hgrid : i.onGrid? power with
    | some multiple => exact ⟨multiple, power, hfirst, hgrid, rfl⟩
    | none =>
      have hne : hit ≠ power := by
        rintro rfl
        simp [hgrid] at h
      exact ih (by omega) (by omega)

end RoundingInterval

/-! ## The search -/

/-- Powers of ten in the exponents `3 / 10` and `4 / 13` of powers of two, which lie on both sides
of the logarithm. -/
theorem ten_zpow_le_two_zpow {power binary : Int} (hupward : 0 ≤ binary → 10 * power ≤ 3 * binary)
    (hdownward : binary < 0 → 13 * power ≤ 4 * binary) : (10 : ℚ) ^ power ≤ 2 ^ binary := by
  rcases Int.lt_or_le binary 0 with hneg | hnonneg
  · refine le_of_pow_le_pow_left₀ (n := 13) (by decide) (by positivity) ?_
    calc ((10 : ℚ) ^ power) ^ 13 = 10 ^ (13 * power) := by rw [← zpow_natCast, ← zpow_mul]; ring_nf
      _ ≤ 10 ^ (4 * binary) := zpow_le_zpow_right₀ (by norm_num) (hdownward hneg)
      _ = (10 ^ 4)⁻¹ ^ (-binary) := by rw [inv_zpow', neg_neg, zpow_mul]; norm_cast
      _ ≤ (2 ^ 13)⁻¹ ^ (-binary) := zpow_le_zpow_left₀ (by omega) (by norm_num) (by norm_num)
      _ = (2 ^ binary) ^ 13 := by
        rw [inv_zpow', neg_neg, ← zpow_natCast, ← zpow_natCast, ← zpow_mul, ← zpow_mul]; ring_nf
  · refine le_of_pow_le_pow_left₀ (n := 10) (by decide) (by positivity) ?_
    calc ((10 : ℚ) ^ power) ^ 10 = 10 ^ (10 * power) := by rw [← zpow_natCast, ← zpow_mul]; ring_nf
      _ ≤ 10 ^ (3 * binary) := zpow_le_zpow_right₀ (by norm_num) (hupward hnonneg)
      _ = (10 ^ 3) ^ binary := by rw [zpow_mul]; norm_cast
      _ ≤ (2 ^ 10) ^ binary := zpow_le_zpow_left₀ hnonneg (by norm_num) (by norm_num)
      _ = (2 ^ binary) ^ 10 := by
        rw [← zpow_natCast, ← zpow_natCast, ← zpow_mul, ← zpow_mul]
        ring_nf

variable {significand : Nat} {exponent : Int}

theorem lower_around_lt (hpos : 0 < significand) (exponent : Int) :
    (RoundingInterval.around significand exponent).lower < binaryValue significand exponent := by
  have hquarters : binaryValue significand exponent =
      (4 * significand : ℕ) * 2 ^ (exponent - 2) := by
    rw [binaryValue, zpow_sub₀ two_ne_zero]
    push_cast
    ring
  rw [hquarters]
  unfold RoundingInterval.lower RoundingInterval.around
  refine mul_lt_mul_of_pos_right (Nat.cast_lt.mpr ?_) (by positivity)
  dsimp only
  split_ifs <;> omega

theorem upper_around (significand : Nat) (exponent : Int) :
    (RoundingInterval.around significand exponent).upper =
      binaryValue significand exponent + 2 ^ (exponent - 1) := by
  unfold RoundingInterval.upper RoundingInterval.around binaryValue
  rw [zpow_sub₀ two_ne_zero, zpow_sub₀ two_ne_zero]
  push_cast
  ring

/-- A grid finer than half the distance of doubles has a hit. -/
theorem exists_onGrid?_of_fine (hpos : 0 < significand)
    (hfine : (10 : ℚ) ^ power < 2 ^ (exponent - 1)) :
    ∃ multiple, (RoundingInterval.around significand exponent).onGrid? power = some multiple := by
  have hten : (0 : ℚ) < 10 ^ power := by positivity
  have hvalue : 0 ≤ binaryValue significand exponent / 10 ^ power := by
    unfold binaryValue
    positivity
  have hfloor := Nat.floor_le hvalue
  have hnext := Nat.lt_floor_add_one (binaryValue significand exponent / 10 ^ power)
  rw [le_div_iff₀ hten] at hfloor
  rw [div_lt_iff₀ hten] at hnext
  refine RoundingInterval.exists_onGrid?
    (⌊binaryValue significand exponent / 10 ^ power⌋₊ + 1) ?_ ?_
  · push_cast
    exact (lower_around_lt hpos exponent).trans hnext
  · rw [upper_around]
    push_cast
    linarith

/-- A whole double lies on the grid of the whole numbers. -/
theorem exists_onGrid?_of_whole (hpos : 0 < significand) (hwhole : 0 ≤ exponent) :
    ∃ multiple, (RoundingInterval.around significand exponent).onGrid? 0 = some multiple := by
  have hvalue : ((significand * 2 ^ exponent.toNat : ℕ) : ℚ) * 10 ^ (0 : ℤ) =
      binaryValue significand exponent := by
    rw [zpow_zero, mul_one, binaryValue, Nat.cast_mul, Nat.cast_pow, Nat.cast_ofNat, ← zpow_natCast,
      Int.toNat_of_nonneg hwhole]
  refine RoundingInterval.exists_onGrid? (significand * 2 ^ exponent.toNat) ?_ ?_
  · rw [hvalue]
    exact lower_around_lt hpos exponent
  · rw [hvalue, upper_around]
    exact lt_add_of_pos_right _ (by positivity)

/-- A grid with a hit that the search comes to, and for a whole double one that is not finer than
the whole numbers. -/
theorem exists_hit (h : IsDouble significand exponent) :
    ∃ hit : Int, (exponent + 54) * 30103 / 100000 - 28 ≤ hit ∧
      hit ≤ (exponent - 1) * 30103 / 100000 + 1 ∧ (0 ≤ exponent → 0 ≤ hit) ∧
      ∃ multiple, (RoundingInterval.around significand exponent).onGrid? hit = some multiple := by
  obtain ⟨hpos, -, hleast, hgreatest, -⟩ := h
  have hfine : (10 : ℚ) ^ ((exponent + 54) * 30103 / 100000 - 28) < 2 ^ (exponent - 1) :=
    calc (10 : ℚ) ^ ((exponent + 54) * 30103 / 100000 - 28)
      _ ≤ 2 ^ (exponent - 2) := ten_zpow_le_two_zpow (by omega) (by omega)
      _ < 2 ^ (exponent - 1) := zpow_lt_zpow_right₀ (by norm_num) (by omega)
  by_cases hwhole : 0 ≤ exponent ∧ (exponent + 54) * 30103 / 100000 - 28 ≤ 0
  · exact ⟨0, hwhole.2, by omega, fun _ => le_rfl, exists_onGrid?_of_whole hpos hwhole.1⟩
  · exact ⟨_, le_rfl, by omega, by omega, exists_onGrid?_of_fine hpos hfine⟩

/-- The shortest decimal lies in the interval around the double, and that of a double without bits
behind the point has no digits there either. -/
theorem shortestDecimal_holds (h : IsDouble significand exponent) :
    (RoundingInterval.around significand exponent).Holds (shortestDecimal significand exponent) ∧
      (0 ≤ exponent → 0 ≤ (shortestDecimal significand exponent).exponent) := by
  obtain ⟨hit, hlast, hfirst, hwhole, hhit⟩ := exists_hit h
  have hbits : (4 * significand + 2).log2 < 55 := by
    have := h.lt
    exact (Nat.log2_lt (by omega)).mpr (by omega)
  let bits : Int := (4 * significand + 2).log2 + (exponent - 2) + 1
  have hstart : (bits * 30103).fdiv 100000 = bits * 30103 / 100000 :=
    Int.fdiv_eq_ediv_of_nonneg _ (by decide)
  have hfirst : hit ≤ (bits * 30103).fdiv 100000 + 1 := by omega
  have hlast : (bits * 30103).fdiv 100000 + 1 < hit + (30 : Nat) := by omega
  obtain ⟨multiple, place, hplace, hgrid, hcoarsest⟩ :=
    RoundingInterval.coarsest_eq hfirst hlast hhit
  have hshortest : shortestDecimal significand exponent = ⟨multiple, place⟩ := hcoarsest
  rw [hshortest]
  refine ⟨RoundingInterval.holds_of_onGrid? ?_ ?_ hgrid, fun he => (hwhole he).trans hplace⟩
  · exact Nat.sub_le _ _
  · exact Nat.le_add_right _ _

/-! ## Bounds -/

/-- A double has its leading bit at the place that its exponent says, if it is not tiny. -/
theorem exponent_le_of_lt (h : IsDouble significand exponent) (bound : Int) (hbound : -1021 ≤ bound)
    (hlt : binaryValue significand exponent < 2 ^ bound) : exponent + 53 ≤ bound := by
  rcases h.normal with rfl | hnormal
  · omega
  · have hleading : (2 : ℚ) ^ (52 + exponent) < 2 ^ bound :=
      calc (2 : ℚ) ^ (52 + exponent) = (2 ^ 52 : ℕ) * 2 ^ exponent := by
            rw [zpow_add₀ two_ne_zero]
            norm_cast
        _ ≤ binaryValue significand exponent :=
            mul_le_mul_of_nonneg_right (Nat.cast_le.mpr hnormal) (by positivity)
        _ < 2 ^ bound := hlt
    have := (zpow_lt_zpow_iff_right₀ one_lt_two).mp hleading
    omega

theorem lt_exponent_of_le (h : IsDouble significand exponent) (bound : Int)
    (hle : 2 ^ bound ≤ binaryValue significand exponent) : bound < exponent + 53 := by
  have hleading : (2 : ℚ) ^ bound < 2 ^ (53 + exponent) :=
    calc (2 : ℚ) ^ bound ≤ binaryValue significand exponent := hle
      _ < (2 ^ 53 : ℕ) * 2 ^ exponent :=
        mul_lt_mul_of_pos_right (Nat.cast_lt.mpr h.lt) (by positivity)
      _ = 2 ^ (53 + exponent) := by
        rw [zpow_add₀ two_ne_zero]
        norm_cast
  have := (zpow_lt_zpow_iff_right₀ one_lt_two).mp hleading
  omega

section
variable {bound : ℚ} (multiple place : Nat) (hbound : bound = multiple * 2 ^ place)
  (hplace : exponent ≤ place)
include hbound hplace

/-- A power of two that is not below the distance of doubles is a multiple of it. -/
theorem exists_units : ∃ units : Nat, bound = units * 2 ^ exponent := by
  refine ⟨multiple * 2 ^ (place - exponent).toNat, ?_⟩
  push_cast
  rw [hbound, mul_assoc, ← zpow_natCast, ← zpow_natCast, ← zpow_add₀ two_ne_zero]
  congr 2
  omega

/-- Where doubles are no farther apart than a power of two, its multiples are doubles, so the
intervals of the doubles below and above one do not come to it. -/
theorem upper_lt_of_lt (hlt : binaryValue significand exponent < bound) :
    (RoundingInterval.around significand exponent).upper < bound := by
  obtain ⟨units, rfl⟩ := exists_units multiple place hbound hplace
  have hpos : (0 : ℚ) < 2 ^ exponent := by positivity
  have hnext : ((significand + 1 : ℕ) : ℚ) ≤ units :=
    Nat.cast_le.mpr (Nat.cast_lt.mp ((mul_lt_mul_iff_left₀ hpos).mp hlt))
  have hscaled := mul_le_mul_of_nonneg_right hnext hpos.le
  rw [upper_around, binaryValue, zpow_sub₀ two_ne_zero]
  push_cast at hscaled
  linarith

theorem lt_lower_of_lt (hlt : bound < binaryValue significand exponent) :
    bound < (RoundingInterval.around significand exponent).lower := by
  obtain ⟨units, rfl⟩ := exists_units multiple place hbound hplace
  have hpos : (0 : ℚ) < 2 ^ exponent := by positivity
  have hnext : units < significand := Nat.cast_lt.mp ((mul_lt_mul_iff_left₀ hpos).mp hlt)
  have hlow : 4 * units + 2 ≤ (RoundingInterval.around significand exponent).low := by
    unfold RoundingInterval.around
    dsimp only
    split_ifs <;> omega
  have hscaled := mul_le_mul_of_nonneg_right (Nat.cast_le (α := ℚ).mpr hlow) hpos.le
  unfold RoundingInterval.lower
  show _ < _ * (2 : ℚ) ^ (exponent - 2)
  rw [zpow_sub₀ two_ne_zero]
  push_cast at hscaled
  linarith

end

theorem binaryValue_injective {m m' : Nat} {e : Int} (h : binaryValue m e = binaryValue m' e) :
    m = m' :=
  Nat.cast_injective (mul_right_cancel₀ (by positivity) h)

/-- Doubles from `2 ^ 63` on have greater shortest decimals. -/
theorem lt_shortestDecimal (h : IsDouble significand exponent)
    (hle : 2 ^ 63 ≤ binaryValue significand exponent) :
    2 ^ 63 < (shortestDecimal significand exponent).value := by
  obtain ⟨⟨hlower, -⟩, -⟩ := shortestDecimal_holds h
  have hexponent := lt_exponent_of_le h 63 (by exact_mod_cast hle)
  rcases hle.lt_or_eq with hlt | heq
  · rcases le_or_gt exponent 63 with hsmall | hgreat
    · exact (lt_lower_of_lt 1 63 (by norm_num) hsmall hlt).trans_le hlower
    · -- The unit is above the bound already.
      have hunit : (2 : ℚ) ^ exponent < binaryValue significand exponent :=
        lt_mul_left (by positivity) (by
          have := h.normal.resolve_left (by omega)
          exact_mod_cast (show 1 < significand by omega))
      have hlt := lt_lower_of_lt 1 exponent.toNat
        (by rw [← zpow_natCast, Int.toNat_of_nonneg (by omega), Nat.cast_one, one_mul]) (by omega)
        hunit
      calc (2 : ℚ) ^ 63 = 2 ^ (63 : ℤ) := by norm_cast
        _ ≤ 2 ^ exponent := zpow_le_zpow_right₀ one_le_two hgreat.le
        _ < _ := hlt.trans_le hlower
  · have hexponent' := exponent_le_of_lt h 64 (by decide) (by rw [← heq]; norm_num)
    obtain rfl : exponent = 11 := by omega
    obtain rfl : significand = 2 ^ 52 := by
      refine binaryValue_injective (e := 11) (heq.symm.trans ?_)
      norm_num [binaryValue]
    have hdecimal : shortestDecimal (2 ^ 52) 11 = ⟨9223372036854776, 3⟩ := by decide +kernel
    rw [hdecimal]
    norm_num [Decimal.value]

/-- Doubles below `10 ^ 16` have shortest decimals below it. -/
theorem shortestDecimal_lt (h : IsDouble significand exponent)
    (hlt : binaryValue significand exponent < 10 ^ 16) :
    (shortestDecimal significand exponent).value < 10 ^ 16 := by
  obtain ⟨⟨-, hupper⟩, -⟩ := shortestDecimal_holds h
  have hexponent := exponent_le_of_lt h 54 (by decide) (hlt.trans (by norm_num))
  exact hupper.trans_lt
    (upper_lt_of_lt (5 ^ 16) 16 (by norm_num) (by omega) hlt)

/-- Between these bounds a double has a shortest decimal between them, without digits behind the
point. -/
theorem shortestDecimal_between (h : IsDouble significand exponent)
    (hle : 10 ^ 16 ≤ binaryValue significand exponent)
    (hlt : binaryValue significand exponent < 2 ^ 63) :
    0 ≤ (shortestDecimal significand exponent).exponent ∧
      10 ^ 16 ≤ (shortestDecimal significand exponent).value ∧
      (shortestDecimal significand exponent).value < 2 ^ 63 := by
  obtain ⟨⟨hlower, hupper⟩, hwhole⟩ := shortestDecimal_holds h
  have hexponent := lt_exponent_of_le h 53 (le_trans (by norm_num) hle)
  have hexponent' := exponent_le_of_lt h 63 (by decide) (by exact_mod_cast hlt)
  refine ⟨hwhole (by omega), ?_, hupper.trans_lt
    (upper_lt_of_lt 1 63 (by norm_num) (by omega) hlt)⟩
  rcases hle.lt_or_eq with hgt | heq
  · exact (lt_lower_of_lt (5 ^ 16) 16 (by norm_num) (by omega) hgt).le.trans
      hlower
  · have hsmall := exponent_le_of_lt h 54 (by decide) (by rw [← heq]; norm_num)
    obtain rfl : exponent = 1 := by omega
    obtain rfl : significand = 5 * 10 ^ 15 := by
      refine binaryValue_injective (e := 1) (heq.symm.trans ?_)
      norm_num [binaryValue]
    have hdecimal : shortestDecimal (5 * 10 ^ 15) 1 = ⟨1, 16⟩ := by decide +kernel
    rw [hdecimal]
    norm_num [Decimal.value]

end ExprScript
