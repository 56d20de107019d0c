import ExprScript.Proofs.Value.Checked
import ExprScript.Scope
import ExprScript.Value.Operators

/-!
# The functions inside values

Lists may hold functions, to any depth. No conversion and no operator makes a function: those inside
a result come from the operands.
-/
namespace ExprScript

namespace Value

mutual

def functions : Value → List Function
  | .function f => [f]
  | .list items => functionsIn items
  | _ => []

def functionsIn : List Value → List Function
  | [] => []
  | item :: items => item.functions ++ functionsIn items

end

/-- Every function that the value holds has the property. -/
def Holds (P : Function → Prop) (value : Value) : Prop :=
  ∀ f ∈ value.functions, P f

variable {P : Function → Prop}

section
-- This makes the equations at once. Proofs that wait for them side by side take much memory.
attribute [local simp] functions functionsIn

theorem mem_functionsIn {f : Function} {items : List Value} :
    f ∈ functionsIn items ↔ ∃ item ∈ items, f ∈ item.functions := by
  induction items with
  | nil => simp
  | cons item items ih => simp [ih]

@[simp] theorem holds_null : Value.null.Holds P := by simp [Holds]

@[simp] theorem holds_int (n : Int64) : (Value.int n).Holds P := by simp [Holds]

@[simp] theorem holds_float (x : Float) : (Value.float x).Holds P := by simp [Holds]

@[simp] theorem holds_bool (b : Bool) : (Value.bool b).Holds P := by simp [Holds]

@[simp] theorem holds_str (text : String) : (Value.str text).Holds P := by
  simp [Holds]

@[simp] theorem holds_infinity (dividend : Dividend) : (Value.infinity dividend).Holds P := by
  simp [Holds]

@[simp] theorem holds_builtin (b : Builtin) : (Value.builtin b).Holds P := by
  simp [Holds]

@[simp] theorem holds_function {f : Function} : (Value.function f).Holds P ↔ P f := by
  simp [Holds]

@[simp] theorem holds_list {items : List Value} :
    (Value.list items).Holds P ↔ ∀ item ∈ items, item.Holds P := by
  simp only [Holds, functions, mem_functionsIn]
  constructor
  · intro h item hitem f hf
    exact h f ⟨item, hitem, hf⟩
  · rintro h f ⟨item, hitem, hf⟩
    exact h item hitem f hf

end

/-! ## Conversions -/

@[simp] theorem holds_number (n : Number) : n.toValue.Holds P := by
  cases n <;> simp [Number.toValue]

@[simp] theorem holds_dividend (dividend : Dividend) : dividend.toValue.Holds P := by
  cases dividend <;> simp [Dividend.toValue]

@[simp] theorem holds_zero (type : ValueType) : type.zero.Holds P := by
  cases type <;> simp [ValueType.zero]

theorem holds_singleElement {items : List Value} {only : Value}
    (h : ∀ item ∈ items, item.Holds P) (hone : singleElement? items = some only) :
    only.Holds P := by
  induction items using singleElement?.induct with
  | case1 inner ih =>
    rw [singleElement?] at hone
    exact ih (by simpa using h) hone
  | case2 item hlist =>
    rw [singleElement?] at hone
    · cases hone
      exact h _ (by simp)
    · exact hlist
  | case3 items h1 h2 =>
    rw [singleElement?] at hone
    · cases hone
    · exact h1
    · exact h2

theorem holds_of_castInt {n : Number} {span : Span} {result : Value}
    (h : castInt n span = .ok result) : result.Holds P := by
  unfold castInt at h
  split at h
  · cases h
    simp
  · cases h

theorem holds_of_castScalar {value result : Value} {type : ValueType} {span : Span}
    (hvalue : value.Holds P) (h : value.castScalar type span = .ok result) : result.Holds P := by
  unfold castScalar at h
  split at h
  · cases h
    simpa using hvalue
  · cases h
    simp
  · split at h <;> cases h
    simp
  · cases h
    simp
  · split at h
    · exact holds_of_castInt h
    · cases h
  · split at h <;> cases h
    simp
  · cases h
    simp
  · split at h
    · exact holds_of_castInt h
    · cases h
  · split at h <;> cases h
    simp

theorem holds_of_castTo {value result : Value} {type : ValueType} {span : Span}
    (hvalue : value.Holds P) (h : value.castTo type span = .ok result) : result.Holds P := by
  unfold castTo at h
  split at h
  · cases h
    simp
  · cases h
    exact hvalue
  · cases h
    simp
  · split at h
    · cases h
      simp
    · rename_i hone
      exact holds_of_castScalar (holds_singleElement (holds_list.mp hvalue) hone) h
    · cases h
  · exact holds_of_castScalar hvalue h

theorem coerceScalar_holds {value : Value} (hvalue : value.Holds P) (type : ValueType)
    (name : String) (span : Span) :
    Checked.Gives (Holds P) (value.coerceScalar type name span) := by
  unfold coerceScalar
  split
  · exact .pure (holds_zero type)
  · exact .pure hvalue
  · exact .warn _ _ _ (.pure (by simpa using hvalue))
  · exact .bind (.ofExcept fun _ h => holds_of_castTo hvalue h) fun _ h => .warn _ _ _ (.pure h)
  · exact .bind (.ofExcept fun _ h => holds_of_castTo hvalue h) fun _ h => .warn _ _ _ (.pure h)
  · exact .throw _
  · exact .throw _
  · exact .warn _ _ _ (.pure (by simp))
  · exact .pure (by simp)
  · exact .pure (by simp)
  · exact .ofExcept fun _ h => holds_of_castTo hvalue h

theorem coerce_holds {value : Value} (hvalue : value.Holds P) (type : DeclaredType)
    (name : String) (span : Span) : Checked.Gives (Holds P) (value.coerce type name span) := by
  unfold coerce
  split
  · exact .pure hvalue
  · exact .pure hvalue
  · split
    · rename_i hone
      exact .warn _ _ _ (coerceScalar_holds (holds_singleElement (holds_list.mp hvalue) hone) _ _ _)
    · exact .throw _
  · exact coerceScalar_holds hvalue _ _ _

end Value

/-! ## Operators -/

namespace Operate

variable {P : Function → Prop}

theorem repeatText_holds (text : String) (count : Nat) (span : Span) :
    Checked.Gives (Value.Holds P) (repeatText text count span) := by
  unfold repeatText
  dsimp only
  split
  · exact .throw _
  · exact .pure (by simp)

theorem infinityLeft_holds (op : ArithOp) (dividend : Dividend) (left right : Operand) :
    Checked.Gives (Value.Holds P) (infinityLeft op dividend left right) := by
  unfold infinityLeft
  dsimp only
  split
  · exact .warn _ _ _ (.pure (by simp))
  · exact .warn _ _ _ (.pure (by simp))
  · exact .warn _ _ _ (.pure (by simp))
  · exact .warn _ _ _ (.pure (by simp))
  · refine .pure ?_
    split <;> simp
  · exact .throw _

theorem infinityRight_holds (op : ArithOp) (dividend : Dividend) (left right : Operand) :
    Checked.Gives (Value.Holds P) (infinityRight op dividend left right) := by
  unfold infinityRight
  dsimp only
  split
  · exact .warn _ _ _ (.pure (by simp))
  · exact .warn _ _ _ (.pure (by simp))
  · refine .pure ?_
    split <;> simp
  · exact .throw _

theorem holds_of_numbers {op : ArithOp} {a b : Number} {span : Span} {result : Value}
    (h : numbers op a b span = .ok result) : result.Holds P := by
  unfold numbers at h
  split at h
  · split at h
    · cases h
      simp
    · cases h
  · cases h
    simp

theorem numeric_holds (op : ArithOp) (dividend : Dividend) (b : Number) (span : Span) :
    Checked.Gives (Value.Holds P) (numeric op dividend b span) := by
  unfold numeric
  dsimp only
  split
  · exact .warn _ _ _ (.pure (by simp))
  · exact .warn _ _ _ (.pure (by simp))
  · exact .warn _ _ _ (.pure (by simp))
  · exact .ofExcept fun _ h => holds_of_numbers h

theorem single_holds (op : ArithOp) {left right : Operand} (hleft : left.value.Holds P)
    (hright : right.value.Holds P) : Checked.Gives (Value.Holds P) (single op left right) := by
  obtain ⟨left, leftSpan⟩ := left
  obtain ⟨right, rightSpan⟩ := right
  unfold single
  dsimp only at hleft hright ⊢
  split
  · exact .pure (by simp)
  · exact .pure hright
  · split
    · exact .pure (by simp)
    · exact .throw _
  · split
    · exact .bind (G := fun _ => True) (fun _ _ _ _ => trivial) fun _ _ => repeatText_holds _ _ _
    · exact .throw _
  · split
    · exact .bind (G := fun _ => True) (fun _ _ _ _ => trivial) fun _ _ => repeatText_holds _ _ _
    · exact .throw _
  · refine .pure (Value.holds_list.mpr fun item hitem => ?_)
    rcases List.mem_append.mp hitem with h | h
    · exact Value.holds_list.mp hleft item h
    · exact Value.holds_list.mp hright item h
  · exact infinityLeft_holds _ _ _ _
  · exact infinityRight_holds _ _ _ _
  · split
    · exact numeric_holds _ _ _ _
    · exact .throw _

mutual

theorem arithmetic_holds (op : ArithOp) (leftSpan : Span) {right : Operand}
    (hright : right.value.Holds P) (left : Value) (hleft : left.Holds P) :
    Checked.Gives (Value.Holds P) (arithmetic op leftSpan right left) := by
  cases left with
  | list items =>
    rw [arithmetic]
    split
    · refine .bind (eachElement_holds op leftSpan hright items (Value.holds_list.mp hleft)) ?_
      intro results hresults
      exact .pure (Value.holds_list.mpr hresults)
    · exact single_holds op hleft hright
  | _ =>
    rw [arithmetic]
    · exact single_holds op hleft hright
    · intro items h
      cases h

theorem eachElement_holds (op : ArithOp) (leftSpan : Span) {right : Operand}
    (hright : right.value.Holds P) (items : List Value) (hitems : ∀ item ∈ items, item.Holds P) :
    Checked.Gives (fun results => ∀ item ∈ results, Value.Holds P item)
      (eachElement op leftSpan right items) := by
  cases items with
  | nil => exact .pure (by simp)
  | cons item items =>
    rw [eachElement]
    have hitem := hitems item (by simp)
    refine .bind (arithmetic_holds op leftSpan hright item hitem) fun first hfirst => ?_
    refine .bind (eachElement_holds op leftSpan hright items fun i hi => hitems i (by simp [hi])) ?_
    intro rest hrest
    refine .pure ?_
    simpa using ⟨hfirst, hrest⟩

end

theorem holds_of_ordered {op : OrderOp} {left right : Operand} {result : Value}
    (h : ordered op left right = .ok result) : result.Holds P := by
  unfold ordered at h
  split at h <;> cases h
  simp

theorem binary_holds (op : BinaryOp) {left right : Operand} (hleft : left.value.Holds P)
    (hright : right.value.Holds P) : Checked.Gives (Value.Holds P) (binary op left right) := by
  cases op with
  | and => exact .pure (by simp)
  | or => exact .pure (by simp)
  | eq => exact .pure (by simp)
  | ne => exact .pure (by simp)
  | order op => exact .ofExcept fun _ h => holds_of_ordered h
  | arith op => exact arithmetic_holds op _ hright _ hleft

theorem holds_of_signed {negative : Bool} {span : Span} {value result : Value}
    (hvalue : value.Holds P) (h : signed negative span value = .ok result) : result.Holds P := by
  unfold signed at h
  dsimp only at h
  split at h
  · split at h
    · obtain ⟨n, -, rfl⟩ := ok_of_map h
      simp
    · cases h
      exact hvalue
  · split at h
    · obtain ⟨n, -, rfl⟩ := ok_of_map h
      simp
    · cases h
      simp
  · cases h

mutual

theorem holds_of_sign {negative : Bool} {span : Span} (value : Value) {result : Value}
    (hvalue : value.Holds P) (h : sign negative span value = .ok result) : result.Holds P := by
  cases value with
  | list items =>
    rw [sign] at h
    obtain ⟨results, hall, hresult⟩ := ok_of_bind h
    cases hresult
    exact Value.holds_list.mpr (holds_of_signAll items (Value.holds_list.mp hvalue) hall)
  | _ =>
    rw [sign] at h
    · exact holds_of_signed hvalue h
    · intro items h
      cases h

theorem holds_of_signAll {negative : Bool} {span : Span} (items : List Value)
    {results : List Value} (hitems : ∀ item ∈ items, item.Holds P)
    (h : signAll negative span items = .ok results) : ∀ item ∈ results, item.Holds P := by
  cases items with
  | nil =>
    cases h
    simp
  | cons item items =>
    rw [signAll] at h
    obtain ⟨first, hfirst, h⟩ := ok_of_bind h
    obtain ⟨rest, hrest, h⟩ := ok_of_bind h
    cases h
    have hholds := holds_of_sign item (hitems item (by simp)) hfirst
    have hall := holds_of_signAll items (fun i hi => hitems i (by simp [hi])) hrest
    simpa using ⟨hholds, hall⟩

end

theorem holds_of_unary {op : UnaryOp} (operand : Operand) {result : Value}
    (hvalue : operand.value.Holds P) (h : unary op operand = .ok result) : result.Holds P := by
  cases op with
  | not =>
    cases h
    simp
  | neg => exact holds_of_sign _ hvalue h
  | plus => exact holds_of_sign _ hvalue h

end Operate
end ExprScript
