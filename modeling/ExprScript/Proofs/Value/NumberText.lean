import Mathlib.Tactic.NormNum
import ExprScript.Proofs.Decimal.Shortest
import ExprScript.Proofs.Value.Display

/-!
# Floats and ints as text

The text of a float has a point or an exponent unless its shortest decimal is a whole number with at
least 17 digits. Such a float is written as the int of the same size, if there is one, so that the
two kinds can be told apart everywhere but between `10 ^ 16` and `2 ^ 63`.
-/
namespace ExprScript

/-! ## Layout -/

/-- Zeros behind the digits of a number are the digits of a multiple. -/
theorem toDigits_mul_ten_pow {n : Nat} (hpos : 0 < n) (count : Nat) :
    Nat.toDigits 10 (n * 10 ^ count) = Nat.toDigits 10 n ++ zeros count := by
  induction count with
  | zero => simp [zeros]
  | succ count ih =>
    have hnext : n * 10 ^ (count + 1) = 10 * (n * 10 ^ count) + 0 := by ring
    rw [hnext, ← Nat.toDigits_append_toDigits (by decide) (by positivity) (by decide), ih,
      Nat.toDigits_zero, zeros, zeros, List.replicate_succ', List.append_assoc]

theorem isDigit_of_toDigits {n : Nat} {c : Char} (h : c ∈ Nat.toDigits 10 n) : c.isDigit :=
  Nat.isDigit_of_mem_toDigits (by decide) (by decide) h

section
variable {d : Decimal}

theorem value_of_whole (hwhole : 0 ≤ d.exponent) :
    d.value = (d.coefficient * 10 ^ d.exponent.toNat : ℕ) := by
  rw [Decimal.value, Nat.cast_mul, Nat.cast_pow, Nat.cast_ofNat, ← zpow_natCast,
    Int.toNat_of_nonneg hwhole]

/-- A text of digits alone is that of a whole decimal with at least 17 digits. -/
theorem layoutDecimal_of_digits (h : ∀ c ∈ layoutDecimal .value d, c.isDigit) :
    0 ≤ d.exponent ∧ 17 ≤ (Nat.toDigits 10 d.coefficient).length + d.exponent ∧
      layoutDecimal .value d = Nat.toDigits 10 d.coefficient ++ zeros d.exponent.toNat := by
  have hpoint : '.' ∉ layoutDecimal .value d := fun hmem => absurd (h _ hmem) (by decide)
  have hpower : 'e' ∉ layoutDecimal .value d := fun hmem => absurd (h _ hmem) (by decide)
  clear h
  unfold layoutDecimal layoutPositional layoutScientific FloatStyle.value at *
  dsimp only at *
  split_ifs at * with hrange hbelow hbehind hfraction
  · simp at hpoint
  · simp at hpoint
  · refine ⟨by omega, by omega, ?_⟩
    rw [List.append_nil]
    congr 2
    omega
  · simp at hpoint
  · simp at hpower

/-- Only a whole decimal from `10 ^ 16` on is written as a natural number, which is its value. -/
theorem value_of_layout {n : Nat} (h : layoutDecimal .value d = Nat.toDigits 10 n) :
    d.value = n ∧ 10 ^ 16 ≤ n := by
  obtain ⟨hwhole, hlong, htext⟩ := layoutDecimal_of_digits (d := d) fun c hc =>
    isDigit_of_toDigits (h ▸ hc)
  rw [h] at htext
  constructor
  · have hread := congrArg (Nat.ofDigitChars 10 · 0) htext
    rw [Nat.ofDigitChars_append, Nat.ofDigitChars_ten_toDigits, Nat.ofDigitChars_ten_toDigits,
      zeros, Nat.ofDigitChars_replicate_zero, Nat.mul_comm] at hread
    rw [value_of_whole hwhole, hread]
  · have hlength := congrArg List.length htext
    rw [List.length_append, zeros, List.length_replicate] at hlength
    by_contra hlt
    have := (Nat.length_toDigits_le_iff (by decide) (by decide)).mpr (Nat.lt_of_not_le hlt)
    omega

/-- A whole decimal from `10 ^ 16` on is written as the natural number that is its value. -/
theorem layout_of_value {n : Nat} (hwhole : 0 ≤ d.exponent) (hvalue : d.value = n)
    (hleast : 10 ^ 16 ≤ n) (hgreatest : n < 10 ^ 20) :
    layoutDecimal .value d = Nat.toDigits 10 n := by
  rw [value_of_whole hwhole, Nat.cast_inj] at hvalue
  have hpos : 0 < d.coefficient := Nat.pos_of_ne_zero fun hzero => by
    rw [hzero, Nat.zero_mul] at hvalue
    omega
  have hdigits := toDigits_mul_ten_pow hpos d.exponent.toNat
  rw [hvalue] at hdigits
  have hlength := congrArg List.length hdigits
  rw [List.length_append, zeros, List.length_replicate] at hlength
  have hlong : ¬(Nat.toDigits 10 n).length ≤ 16 := fun hshort =>
    absurd ((Nat.length_toDigits_le_iff (by decide) (by decide)).mp hshort) (by omega)
  have hshort := (Nat.length_toDigits_le_iff (by decide) (by decide)).mpr hgreatest
  unfold layoutDecimal layoutPositional FloatStyle.value
  dsimp only
  rw [if_pos (by omega), if_neg (by omega), if_pos (by omega), if_neg (by omega), List.append_nil,
    hdigits]
  congr 2
  omega

theorem layoutDecimal_head {c : Char} {cs : List Char} (h : layoutDecimal .value d = c :: cs) :
    c.isDigit := by
  obtain ⟨first, rest, hdigits⟩ :=
    List.exists_cons_of_ne_nil (Nat.toDigits_ne_nil (n := d.coefficient) (b := 10))
  have hfirst : first.isDigit := isDigit_of_toDigits (hdigits ▸ List.mem_cons_self)
  unfold layoutDecimal layoutPositional layoutScientific at h
  dsimp only at h
  rw [hdigits] at h
  split_ifs at h with hrange hbelow hbehind
  · obtain rfl := (List.cons.inj h).1
    decide
  · obtain rfl := (List.cons.inj h).1
    exact hfirst
  · obtain rfl := (List.cons.inj h).1
    exact hfirst
  · obtain ⟨count, hcount⟩ : ∃ count, ((first :: rest).length + d.exponent).toNat = count + 1 :=
      Nat.exists_eq_succ_of_ne_zero (by omega)
    rw [hcount] at h
    obtain rfl := (List.cons.inj h).1
    exact hfirst
  · cases rest <;> obtain rfl := (List.cons.inj h).1 <;> exact hfirst

end

/-! ## Numbers -/

variable {x : Float} {negative : Bool} {significand : Nat} {exponent : Int}

theorem isDouble_of_parts (hx : FloatParts.of x = .finite negative significand exponent)
    (hpos : 0 < significand) : IsDouble significand exponent := by
  unfold FloatParts.of FloatParts.ofBits at hx
  dsimp only at hx
  split_ifs at hx with hspecial hzero hsubnormal
  · obtain ⟨-, rfl, rfl⟩ := FloatParts.finite.inj hx
    exact ⟨hpos, by omega, by omega, by omega, .inl rfl⟩
  · obtain ⟨-, rfl, rfl⟩ := FloatParts.finite.inj hx
    exact ⟨hpos, by omega, by omega, by omega, .inr (by omega)⟩

namespace Value

def signed (negative : Bool) (text : List Char) : List Char :=
  if negative then '-' :: text else text

theorem display_signed_int (n : Int64) :
    (int n).display.toList = signed (n.toInt < 0) (Nat.toDigits 10 n.toInt.natAbs) := by
  rw [display_int]
  simp [signed]

theorem display_zero (hx : FloatParts.of x = .finite negative 0 exponent) :
    (float x).display.toList = signed negative ['0', '.', '0'] := by
  cases negative <;>
    simp [display, write, Number.display, formatFloat, hx, signed, FloatStyle.value]

theorem display_finite (hx : FloatParts.of x = .finite negative significand exponent)
    (hpos : 0 < significand) :
    (float x).display.toList =
      signed negative (layoutDecimal .value (shortestDecimal significand exponent)) := by
  obtain ⟨significand, rfl⟩ := Nat.exists_eq_succ_of_ne_zero hpos.ne'
  cases negative <;> simp [display, write, Number.display, formatFloat, hx, signed]

theorem signed_inj {negative negative' : Bool} {text text' : List Char}
    (htext : ∀ c cs, text = c :: cs → c.isDigit) (htext' : ∀ c cs, text' = c :: cs → c.isDigit)
    (h : signed negative text = signed negative' text') : negative = negative' ∧ text = text' := by
  cases negative <;> cases negative' <;>
    simp only [signed, Bool.false_eq_true, if_false, if_true] at h
  · exact ⟨rfl, h⟩
  · exact absurd (htext _ _ h) (by decide)
  · exact absurd (htext' _ _ h.symm) (by decide)
  · exact ⟨rfl, (List.cons.inj h).2⟩

/-- The text of a float is that of an int exactly between these bounds. -/
theorem display_float_eq_int_iff (hx : FloatParts.of x = .finite negative significand exponent) :
    (∃ n : Int64, (float x).display = (int n).display) ↔
      10 ^ 16 ≤ binaryValue significand exponent ∧ binaryValue significand exponent < 2 ^ 63 := by
  constructor
  · rintro ⟨n, hn⟩
    have htexts := congrArg String.toList hn
    have hhead : ∀ c cs, Nat.toDigits 10 n.toInt.natAbs = c :: cs → c.isDigit := fun c cs hdigits =>
      isDigit_of_toDigits (hdigits ▸ List.mem_cons_self)
    rw [display_signed_int] at htexts
    rcases Nat.eq_zero_or_pos significand with rfl | hpos
    · rw [display_zero hx] at htexts
      obtain ⟨-, hdigits⟩ := signed_inj (by rintro _ _ ⟨⟩; decide) hhead htexts
      have hpoint : '.' ∈ Nat.toDigits 10 n.toInt.natAbs := hdigits ▸ by simp
      exact absurd (isDigit_of_toDigits hpoint) (by decide)
    · have hdouble := isDouble_of_parts hx hpos
      rw [display_finite hx hpos] at htexts
      obtain ⟨-, hdigits⟩ := signed_inj (fun _ _ => layoutDecimal_head) hhead htexts
      obtain ⟨hvalue, hleast⟩ := value_of_layout hdigits
      have hgreatest : n.toInt.natAbs ≤ 2 ^ 63 := by
        have := n.le_toInt
        have := n.toInt_lt
        omega
      refine ⟨le_of_not_gt fun hlt => ?_, lt_of_not_ge fun hge => ?_⟩
      · have hlt := shortestDecimal_lt hdouble hlt
        rw [hvalue] at hlt
        exact absurd hleast (Nat.not_le.mpr (by exact_mod_cast hlt))
      · have hgt := lt_shortestDecimal hdouble hge
        rw [hvalue] at hgt
        exact absurd hgreatest (Nat.not_le.mpr (by exact_mod_cast hgt))
  · rintro ⟨hle, hlt⟩
    have hpos : 0 < significand := Nat.pos_of_ne_zero fun hzero => by
      norm_num [binaryValue, hzero] at hle
    have hdouble := isDouble_of_parts hx hpos
    obtain ⟨hwhole, hleast, hgreatest⟩ := shortestDecimal_between hdouble hle hlt
    obtain ⟨k, hk⟩ : ∃ k : Nat, (shortestDecimal significand exponent).value = k :=
      ⟨_, value_of_whole hwhole⟩
    rw [hk] at hleast hgreatest
    have hleast : 10 ^ 16 ≤ k := by exact_mod_cast hleast
    have hgreatest : k < 2 ^ 63 := by exact_mod_cast hgreatest
    let size : Int := if negative then -k else k
    have hsize : (Int64.ofInt size).toInt = size :=
      Int64.toInt_ofInt_of_le (by dsimp only [size]; split <;> omega)
        (by dsimp only [size]; split <;> omega)
    have hsign : (size < 0 : Bool) = negative := by
      dsimp only [size]
      cases negative with
      | false => simp
      | true =>
        simp only [if_true, decide_eq_true_eq]
        omega
    have habs : size.natAbs = k := by
      dsimp only [size]
      split <;> omega
    refine ⟨Int64.ofInt size, String.toList_inj.mp ?_⟩
    rw [display_finite hx hpos, display_signed_int, hsize, hsign, habs,
      layout_of_value hwhole hk hleast (hgreatest.trans (by norm_num))]

/-! ## Inside lists -/

/-- A value inside lists, of which each has some items before and behind it. -/
def inLists : List (List Value × List Value) → Value → Value
  | [], value => value
  | (before, behind) :: outer, value => inLists outer (.list (before ++ value :: behind))

theorem closing_inj (before behind : List Value) {a b : Value} :
    closing (before ++ a :: behind) = closing (before ++ b :: behind) ↔ a.display = b.display := by
  induction before with
  | nil => simp [closing, String.toList_inj]
  | cons item before ih => simpa [closing] using ih

/-- Of two lists that differ in one item the texts differ as those of the items do. -/
theorem display_list_inj (before behind : List Value) {a b : Value} :
    (list (before ++ a :: behind)).display = (list (before ++ b :: behind)).display ↔
      a.display = b.display := by
  rw [← String.toList_inj]
  cases before with
  | nil => simp [display_cons, String.toList_inj]
  | cons item before =>
    rw [List.cons_append, List.cons_append, display_cons, display_cons, ← closing_inj before behind]
    simp

theorem display_inLists_inj (outer : List (List Value × List Value)) {a b : Value} :
    (inLists outer a).display = (inLists outer b).display ↔ a.display = b.display := by
  induction outer generalizing a b with
  | nil => rfl
  | cons around outer ih => exact ih.trans (display_list_inj around.1 around.2)

/-- Numbers and lists are printed as they are displayed. -/
theorem printed_inLists (outer : List (List Value × List Value)) {value : Value}
    (h : ∀ text, value ≠ .str text) :
    (inLists outer value).printed = (inLists outer value).display := by
  induction outer generalizing value with
  | nil => cases value <;> first | rfl | exact absurd rfl (h _)
  | cons around outer ih => exact ih fun _ h => nomatch h

/-- A float, on its own or inside lists, is shown like no int in its place exactly if it is less
than `10 ^ 16` or at least `2 ^ 63` in size. -/
theorem floats_shown_unlike_ints
    (hx : FloatParts.of x = .finite negative significand exponent)
    (outer : List (List Value × List Value)) :
    (∀ n : Int64,
      (inLists outer (.float x)).display ≠ (inLists outer (.int n)).display ∧
      (inLists outer (.float x)).printed ≠ (inLists outer (.int n)).printed) ↔
    binaryValue significand exponent < 10 ^ 16 ∨ 2 ^ 63 ≤ binaryValue significand exponent := by
  have hfloat : (inLists outer (.float x)).printed = _ := printed_inLists outer fun _ h => nomatch h
  have hint (n : Int64) : (inLists outer (.int n)).printed = _ :=
    printed_inLists outer fun _ h => nomatch h
  simp only [hfloat, hint, and_self, ne_eq, display_inLists_inj]
  rw [← not_exists, display_float_eq_int_iff hx, not_and_or, not_le, not_lt]

theorem five_shown_unlike_int :
    (list [.null, .float 5.0]).printed ≠ (list [.null, .int 5]).printed := by
  have hparts : FloatParts.of 5.0 = .finite false 5629499534213120 (-50) := by decide +kernel
  have hsize : binaryValue 5629499534213120 (-50) = 5 := by norm_num [binaryValue]
  exact ((floats_shown_unlike_ints hparts [([.null], [])]).mpr (.inl (by rw [hsize]; norm_num)) 5).2

/-- From `10 ^ 16` on floats are shown without a fractional part. -/
theorem huge_float_shown_like_int :
    (∃ negative significand exponent,
      FloatParts.of 10000000000000000.0 = .finite negative significand exponent) ∧
    (float 10000000000000000.0).display = (int 10000000000000000).display := by
  refine ⟨⟨false, 5000000000000000, 1, by decide +kernel⟩, by decide +kernel⟩

end Value
end ExprScript
