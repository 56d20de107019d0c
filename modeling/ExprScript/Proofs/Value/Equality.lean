import ExprScript.Value.Equality

/-!
# The laws of equality

A value equals itself unless it holds a float that is not a number, the order of two values does not
matter, and what is strictly equal is equal. Equality also passes on from one value to the next, but
not from an int over a float to another int: several ints have one closest float where floats are
farther apart than ints.
-/
namespace ExprScript

open Float.Model (UnpackedFloat)

/-! ## Floats -/

theorem then_compare_eq_iff (m n : Nat) (e k : Int) :
    (compare e k).then (compare m n) = .eq ↔ m = n ∧ e = k := by
  rw [Ordering.then_eq_eq, Std.compare_eq_iff_eq, Std.compare_eq_iff_eq, and_comm]

/-- Numbers are equal if they are the same, or zeros of any sign. -/
theorem compare_eq_iff (a b : UnpackedFloat) :
    a.compare b = some .eq ↔
      a ≠ .notANumber ∧ (a = b ∨ ∃ s t, a = .zero s ∧ b = .zero t) := by
  constructor
  · intro h
    rcases a with (_ | _) | _ | s | ⟨_ | _, m, e, hm⟩ <;>
      rcases b with (_ | _) | _ | t | ⟨_ | _, n, k, hn⟩ <;> try cases h
    -- What is left are infinities, zeros and finite numbers, each of one sign or of any.
    · exact ⟨by rintro ⟨⟩, .inl rfl⟩
    · exact ⟨by rintro ⟨⟩, .inl rfl⟩
    · exact ⟨by rintro ⟨⟩, .inr ⟨s, t, rfl, rfl⟩⟩
    · have hsame : (compare e k).then (compare m n) = .eq :=
        Ordering.swap_swap.symm.trans (congrArg Ordering.swap (Option.some.inj h))
      obtain ⟨rfl, rfl⟩ := (then_compare_eq_iff m n e k).mp hsame
      exact ⟨by rintro ⟨⟩, .inl rfl⟩
    · obtain ⟨rfl, rfl⟩ := (then_compare_eq_iff m n e k).mp (Option.some.inj h)
      exact ⟨by rintro ⟨⟩, .inl rfl⟩
  · rintro ⟨hnumber, rfl | ⟨s, t, rfl, rfl⟩⟩
    · rcases a with (_ | _) | _ | s | ⟨_ | _, m, e, hm⟩
      case notANumber => exact absurd rfl hnumber
      case finite.negative =>
        exact congrArg (some ∘ Ordering.swap) ((then_compare_eq_iff m m e e).mpr ⟨rfl, rfl⟩)
      case finite.positive => exact congrArg some ((then_compare_eq_iff m m e e).mpr ⟨rfl, rfl⟩)
      all_goals rfl
    · rfl

/-- The sign, coefficient and exponent of a float. -/
def unpacked (x : Float) : UnpackedFloat := x.toModel.unpack

theorem float_beq_iff (x y : Float) :
    (x == y) = true ↔
      unpacked x ≠ .notANumber ∧
        (unpacked x = unpacked y ∨ ∃ s t, unpacked x = .zero s ∧ unpacked y = .zero t) :=
  Iff.trans (@beq_iff_eq (Option Ordering) _ _ _ _) (compare_eq_iff ..)

theorem float_beq_comm (x y : Float) : (x == y) = (y == x) := by
  grind [float_beq_iff]

theorem float_beq_trans {x y z : Float} (h : (x == y) = true) (h' : (y == z) = true) :
    (x == z) = true := by
  grind [float_beq_iff]

theorem float_beq_self (x : Float) : (x == x) = !x.isNaN := by
  have hnan : x.isNaN = (unpacked x).isNaN := rfl
  rw [Bool.eq_iff_iff, float_beq_iff, hnan]
  cases unpacked x with
  | notANumber => exact iff_of_false (fun h => h.1 rfl) (by decide)
  | infinity | zero | finite => exact iff_of_true ⟨by rintro ⟨⟩, .inl rfl⟩ rfl

theorem float_neg_congr {x y : Float} (h : (x == y) = true) :
    decide (x < 0) = decide (y < 0) := by
  have hlt (z : Float) : decide (z < 0) = ((unpacked z).compare (unpacked 0) == some .lt) :=
    Bool.eq_iff_iff.mpr (decide_eq_true_iff.trans decide_eq_true_iff)
  rw [hlt, hlt]
  obtain ⟨-, heq | ⟨s, t, hx, hy⟩⟩ := (float_beq_iff x y).mp h
  · rw [heq]
  · rw [hx, hy]
    cases s <;> cases t <;> rfl

/-! ## Infinities -/

theorem Number.isNegative_congr {a b : Number} (h : a.identical b) :
    a.isNegative = b.isNegative := by
  cases a <;> cases b <;> simp only [identical, decide_eq_true_eq, Bool.false_eq_true] at h
  · rw [h]
  · exact float_neg_congr h

theorem Dividend.isNegative_congr {a b : Dividend} (h : a.identical b) :
    a.isNegative = b.isNegative := by
  cases a <;> cases b <;> simp only [identical, decide_eq_true_eq, Bool.false_eq_true] at h
  · exact Number.isNegative_congr h
  · rw [h]

namespace Value

/-! ## What the laws leave out -/

mutual

/-- Whether a value is not NaN and no list that holds NaN at any depth. -/
def isComparable : Value → Bool
  | .float x => !x.isNaN
  | .list items => areComparable items
  | _ => true

def areComparable : List Value → Bool
  | [] => true
  | item :: items => item.isComparable && areComparable items

end

mutual

/-- Whether two values have different ints in one place where a value between them has a float. -/
def floatBetween : Value → Value → Value → Bool
  | .int a, .float _, .int c => a ≠ c
  | .list as, .list bs, .list cs => floatBetweenAny as bs cs
  | _, _, _ => false

def floatBetweenAny : List Value → List Value → List Value → Bool
  | a :: as, b :: bs, c :: cs => floatBetween a b c || floatBetweenAny as bs cs
  | _, _, _ => false

end

/-! ## The laws -/

mutual

/-- A value equals itself if it holds no NaN, and only then. -/
theorem equals_self (value : Value) : equals value value = value.isComparable := by
  cases value with
  | float x => exact float_beq_self x
  | list items => exact equalsAll_self items
  | _ => simp [equals, isComparable]

theorem equalsAll_self (items : List Value) : equalsAll items items = areComparable items := by
  cases items with
  | nil => rfl
  | cons item items => rw [equalsAll, areComparable, equals_self item, equalsAll_self items]

end

mutual

theorem equals_comm (a b : Value) : equals a b = equals b a := by
  cases a <;> cases b <;> simp only [equals, eq_comm]
  case list.list => exact equalsAll_comm _ _
  all_goals exact float_beq_comm _ _

theorem equalsAll_comm (as bs : List Value) : equalsAll as bs = equalsAll bs as := by
  cases as <;> cases bs <;> simp only [equalsAll]
  rename_i a as b bs
  rw [equals_comm a b, equalsAll_comm as bs]

end

mutual

/-- What is strictly equal is equal. -/
theorem equals_of_identical {a b : Value} (h : identical a b) : equals a b := by
  cases a <;> cases b <;> simp only [identical, Bool.false_eq_true] at h
  case null.null => rfl
  case infinity.infinity => simpa [equals] using Dividend.isNegative_congr h
  case list.list => exact equalsAll_of_identicalAll h
  all_goals exact h

theorem equalsAll_of_identicalAll {as bs : List Value} (h : identicalAll as bs) :
    equalsAll as bs := by
  cases as <;> cases bs <;> simp only [identicalAll, Bool.false_eq_true] at h
  · rfl
  · obtain ⟨hhead, htail⟩ := Bool.and_eq_true_iff.mp h
    rw [equalsAll, equals_of_identical hhead, equalsAll_of_identicalAll htail]
    rfl

end

mutual

/-- Equality passes on from the value between two others exactly if it has no float between
different ints. -/
theorem equals_trans {a b c : Value} (hab : equals a b) (hbc : equals b c) :
    equals a c = !floatBetween a b c := by
  cases a <;> cases b <;> simp only [equals, Bool.false_eq_true] at hab <;>
    cases c <;> simp only [equals, Bool.false_eq_true] at hbc
  case list.list.list => exact equalsAll_trans hab hbc
  case int.float.int => simp [equals, floatBetween]
  case int.int.float | float.int.int => simp_all [equals, floatBetween]
  case int.float.float | float.int.float | float.float.int | float.float.float =>
    exact float_beq_trans hab hbc
  all_goals simp_all [equals, floatBetween]

theorem equalsAll_trans {as bs cs : List Value} (hab : equalsAll as bs) (hbc : equalsAll bs cs) :
    equalsAll as cs = !floatBetweenAny as bs cs := by
  cases as <;> cases bs <;> simp only [equalsAll, Bool.false_eq_true] at hab <;>
    cases cs <;> simp only [equalsAll, Bool.false_eq_true] at hbc
  · rfl
  · obtain ⟨hab, habs⟩ := Bool.and_eq_true_iff.mp hab
    obtain ⟨hbc, hbcs⟩ := Bool.and_eq_true_iff.mp hbc
    rw [equalsAll, floatBetweenAny, equals_trans hab hbc, equalsAll_trans habs hbcs,
      Bool.not_or]

end

/-- Equality is reflexive on values without NaN, symmetric, and includes strict equality. It passes
on from `a` over `b` to `c` unless somewhere `a` and `c` have different ints and `b` has a float. -/
theorem equality_laws (a b c : Value) :
    (a.isComparable → equals a a) ∧
    equals a b = equals b a ∧
    (equals a b → equals b c → (equals a c ↔ ¬ floatBetween a b c)) ∧
    (identical a b → equals a b) := by
  refine ⟨fun h => ?_, equals_comm a b, fun hab hbc => ?_, equals_of_identical⟩
  · rw [equals_self, h]
  · simp [equals_trans hab hbc]

theorem mixed_lists_equal :
    let a : Value := .list [.int 2, .list [.int 3]]
    let b : Value := .list [.float 2.0, .list [.int 3]]
    let c : Value := .list [.int 2, .list [.float 3.0]]
    equals a c ∧ equals b b ∧ equals c c := by
  intro a b c
  refine ⟨?_, ?_, ?_⟩
  · exact ((equality_laws a b c).2.2.1 (by decide +kernel) (by decide +kernel)).mpr (by decide)
  · exact (equality_laws b a c).1 (by decide +kernel)
  · exact (equality_laws c c a).2.2.2 (by decide +kernel)

/-- Two ints in a row share their closest float, so both equal it and not each other. -/
theorem neighbours_equal_one_float :
    equals (.int 9007199254740993) (.float 9007199254740992.0) ∧
    equals (.float 9007199254740992.0) (.int 9007199254740992) ∧
    ¬ equals (.int 9007199254740993) (.int 9007199254740992) := by
  decide +kernel

end Value
end ExprScript
