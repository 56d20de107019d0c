import ExprScript.Proofs.Value.Checked
import ExprScript.Value.Convert

/-!
# Casts and coercions

A program casts values by one table, and values that are stored in typed variables are coerced by
another one. Infinities and functions apart, the two agree on what is inside of lists of one
element. Only for lists and `bool` they differ: a cast asks the list whether it has content, and a
coercion asks the value inside whether it is true.
-/
namespace ExprScript

/-- What a computation gives behind some warnings. -/
def Checked.result {α : Type} (p : Checked α) (before : Array Diagnostic) : Except Diagnostic α :=
  match p before with
  | .ok a _ => .ok a
  | .error d _ => .error d

namespace Value

/-- The value inside of lists of one element, or the value itself where it is no such list. -/
def unwrapped : Value → Value
  | .list [item] => item.unwrapped
  | value => value

def isList : Value → Bool
  | .list _ => true
  | _ => false

def isInfinity : Value → Bool
  | .infinity _ => true
  | _ => false

def isFunction : Value → Bool
  | .function _ | .builtin _ => true
  | _ => false

variable {value : Value} {items : List Value} {type : ValueType} {name : String} {span : Span}
  {before : Array Diagnostic}

/-! ## Lists of one element -/

theorem isList_eq_false_iff : value.isList = false ↔ ∀ items, value ≠ list items := by
  cases value <;> simp [isList]

theorem unwrapped_of_not_isList (h : value.isList = false) : value.unwrapped = value := by
  rw [unwrapped]
  exact fun item => isList_eq_false_iff.mp h [item]

theorem unwrapped_of_ne_singleton (h : ∀ item, items ≠ [item]) :
    (list items).unwrapped = list items := by
  rw [unwrapped]
  exact fun item hitem => h item (list.inj hitem)

theorem exists_items_of_isList (h : value.isList = true) : ∃ items, value = list items := by
  cases value with
  | list items => exact ⟨items, rfl⟩
  | _ => cases h

/-- The only element of a list is the value inside of it, unless that is a list. -/
theorem singleElement?_eq (items : List Value) :
    singleElement? items =
      if (list items).unwrapped.isList then none else some (list items).unwrapped := by
  induction items using singleElement?.induct with
  | case1 inner ih => rw [singleElement?, ih, unwrapped]
  | case2 item hscalar =>
    have hitem := isList_eq_false_iff.mpr fun inner => hscalar inner
    rw [singleElement?, unwrapped, unwrapped_of_not_isList hitem, hitem]
    · rfl
    · exact hscalar
  | case3 items hnested hone =>
    rw [singleElement?, unwrapped_of_ne_singleton fun item => hone item]
    · rfl
    · exact hnested
    · exact hone

/-- A list with a value inside that is no list has content. -/
theorem anyContent_of_unwrapped (h : (list items).unwrapped.isList = false) :
    anyContent items = true := by
  induction items using singleElement?.induct with
  | case1 inner ih =>
    rw [unwrapped] at h
    simp [anyContent, hasContent, ih h]
  | case2 item hscalar =>
    cases item with
    | list inner => exact absurd rfl (hscalar inner)
    | _ => simp [anyContent, hasContent]
  | case3 items hnested hone =>
    rw [unwrapped_of_ne_singleton fun item => hone item] at h
    cases h

/-! ## Casts -/

/-- Where a cast stands is no matter to whether it fails and to what it gives. -/
theorem toOption_castInt (n : Number) (span place : Span) :
    (castInt n span).toOption = (castInt n place).toOption := by
  unfold castInt
  split <;> rfl

theorem toOption_castScalar (value : Value) (type : ValueType) (span place : Span) :
    (value.castScalar type span).toOption = (value.castScalar type place).toOption := by
  unfold castScalar
  split
  · rfl
  · rfl
  · split <;> rfl
  · rfl
  · split
    · exact toOption_castInt _ span place
    · rfl
  · split <;> rfl
  · rfl
  · split
    · exact toOption_castInt _ span place
    · rfl
  · split <;> rfl

theorem toOption_castTo (value : Value) (type : ValueType) (span place : Span) :
    (value.castTo type span).toOption = (value.castTo type place).toOption := by
  unfold castTo
  split
  · rfl
  · rfl
  · rfl
  · split
    · rfl
    · exact toOption_castScalar _ type span place
    · rfl
  · exact toOption_castScalar value type span place

theorem castTo_of_not_isList (h : value.isList = false) (hnull : value ≠ null) :
    value.castTo type span = value.castScalar type span := by
  have hlist := isList_eq_false_iff.mp h
  rw [castTo]
  · exact hnull
  · exact hlist
  · exact fun items hvalue => absurd hvalue (hlist items)
  · exact fun items hvalue => absurd hvalue (hlist items)

/-- A list is cast to a type that is neither `list` nor `bool` as the value inside of it. -/
theorem castTo_list (hlist : type ≠ .list) (hbool : type ≠ .bool)
    (h : (list items).unwrapped.isList = false) :
    castTo (list items) type span = castTo (list items).unwrapped type span := by
  rw [castTo, singleElement?_eq, h, if_neg (by simp)]
  · by_cases hnull : (list items).unwrapped = null
    · rw [hnull]
      rfl
    · rw [castTo_of_not_isList h hnull]
      split
      · exact absurd (Option.some.inj ‹_›) hnull
      · cases ‹some _ = some _›
        rfl
      · cases ‹some _ = none›
  · exact hlist
  · exact hbool

/-- A list with no single value inside is cast to no type but `list` and `bool`. -/
theorem toOption_castTo_list (hlist : type ≠ .list) (hbool : type ≠ .bool)
    (h : (list items).unwrapped.isList = true) :
    (castTo (list items) type span).toOption = none := by
  rw [castTo, singleElement?_eq, if_pos h]
  · rfl
  · exact hlist
  · exact hbool

/-! ## Coercions -/

theorem result_ofExcept (e : Except Diagnostic Value) :
    (MonadExcept.ofExcept e : Checked Value).result before = e := by
  cases e <;> rfl

/-- A warning behind a computation changes nothing of what it gives. -/
theorem result_ofExcept_warn (e : Except Diagnostic Value) (code : Code) (args : List String) :
    Checked.result (do
      let parsed ← MonadExcept.ofExcept e
      Checked.warn code span args
      return parsed) before = e := by
  cases e <;> rfl

/-- Numbers and booleans are cast where they become neither a text nor a list. -/
theorem coerceScalar_of_number (hnumber : value.toNumber?.isSome) (hstr : type ≠ .str)
    (hlist : type ≠ .list) :
    value.coerceScalar type name span = MonadExcept.ofExcept (value.castTo type span) := by
  cases value with
  | int | float | bool =>
    cases type with
    | int | float | bool => rfl
    | str | list => contradiction
  | _ => contradiction

/-- A value that is neither a list nor an infinity nor a function is coerced as it is cast. -/
theorem toOption_coerceScalar (hlist : value.isList = false) (hinfinity : value.isInfinity = false)
    (hfunction : value.isFunction = false) :
    ((value.coerceScalar type name span).result before).toOption =
      (value.castTo type span).toOption := by
  cases value with
  | null => rfl
  | list | infinity | function | builtin => contradiction
  | str text =>
    cases type with
    | int | float => exact congrArg _ (result_ofExcept_warn (castTo (str text) _ span) _ _)
    | bool => exact congrArg _ (result_ofExcept (castTo (str text) .bool span))
    | str | list => rfl
  | int | float | bool =>
    cases type with
    | int | float | bool => rw [coerceScalar_of_number rfl (by simp) (by simp), result_ofExcept]
    | str | list => rfl

/-- A value that is neither a list nor a function is as true for a coercion as it is for a cast. -/
theorem result_coerceScalar_bool (hlist : value.isList = false)
    (hfunction : value.isFunction = false) :
    (value.coerceScalar .bool name span).result before = value.castTo .bool span := by
  cases value with
  | null | infinity => rfl
  | list | function | builtin => contradiction
  | str text => exact result_ofExcept (castTo (str text) .bool span)
  | int | float | bool => rw [coerceScalar_of_number rfl (by simp) (by simp), result_ofExcept]

theorem coerce_of_not_isList (h : value.isList = false) :
    value.coerce (.typed type) name span = value.coerceScalar type name span := by
  have hlist := isList_eq_false_iff.mp h
  rw [coerce]
  · exact fun items hvalue => absurd hvalue (hlist items)
  · exact hlist

/-- A list is coerced to another type as the value inside of it. -/
theorem result_coerce_list (name : String) (span : Span) (before : Array Diagnostic)
    (htype : type ≠ .list) (h : (list items).unwrapped.isList = false) :
    ∃ warned, ((list items).coerce (.typed type) name span).result before =
      ((list items).unwrapped.coerceScalar type name span).result warned := by
  rw [coerce, singleElement?_eq, h, if_neg (by simp)]
  · exact ⟨_, rfl⟩
  · exact htype

/-- A list with no single value inside is coerced to no other type. -/
theorem toOption_coerce_list (htype : type ≠ .list) (h : (list items).unwrapped.isList = true) :
    (((list items).coerce (.typed type) name span).result before).toOption = none := by
  rw [coerce, singleElement?_eq, if_pos h]
  · rfl
  · exact htype

/-! ## Both -/

/-- If what is inside of a value is neither an infinity nor a function, then storing the value in a
typed variable and casting it to the type both fail or both give one value, unless a list becomes a
`bool`. A list that has a value inside is always true when cast, and when stored as true as the
value inside of it, also if that is an infinity. -/
theorem coercion_agrees_with_cast (value : Value) (type : ValueType) (name : String)
    (span place : Span) (before : Array Diagnostic) :
    (value.unwrapped.isInfinity = false → value.unwrapped.isFunction = false →
      ¬(value.isList = true ∧ type = .bool) →
      ((value.coerce (.typed type) name span).result before).toOption =
        (value.castTo type place).toOption) ∧
    (value.isList = true → value.unwrapped.isList = false → value.unwrapped.isFunction = false →
      (value.coerce (.typed .bool) name span).result before = value.unwrapped.castTo .bool span ∧
      value.castTo .bool place = .ok (.bool true)) := by
  constructor
  · intro hinfinity hfunction hother
    rw [toOption_castTo value type place span]
    cases hlist : value.isList with
    | false =>
      rw [unwrapped_of_not_isList hlist] at hinfinity hfunction
      rw [coerce_of_not_isList hlist]
      exact toOption_coerceScalar hlist hinfinity hfunction
    | true =>
      obtain ⟨items, rfl⟩ := exists_items_of_isList hlist
      have hbool : type ≠ .bool := fun htype => hother ⟨hlist, htype⟩
      by_cases htype : type = .list
      · subst htype
        rfl
      cases hinside : (list items).unwrapped.isList with
      | true => rw [toOption_coerce_list htype hinside, toOption_castTo_list htype hbool hinside]
      | false =>
        obtain ⟨warned, hcoerce⟩ := result_coerce_list name span before htype hinside
        rw [hcoerce, castTo_list htype hbool hinside]
        exact toOption_coerceScalar hinside hinfinity hfunction
  · intro hlist hinside hfunction
    obtain ⟨items, rfl⟩ := exists_items_of_isList hlist
    have hbool : ValueType.bool ≠ .list := by simp
    obtain ⟨warned, hcoerce⟩ := result_coerce_list name span before hbool hinside
    rw [hcoerce, result_coerceScalar_bool hinside hfunction, castTo,
      anyContent_of_unwrapped hinside]
    exact ⟨rfl, rfl⟩

/-- A zero inside of two lists: an `int` by both conversions, true when cast to `bool` and false
when stored in a `bool`. -/
theorem nested_zero_converted :
    let value := list [list [int 0]]
    (value.unwrapped.isInfinity = false ∧ value.unwrapped.isFunction = false ∧
      ¬(value.isList = true ∧ ValueType.int = .bool) ∧
      ((value.coerce (.typed .int) "n" {}).result #[]).toOption =
        (value.castTo .int {}).toOption) ∧
    value.isList = true ∧ value.unwrapped.isList = false ∧
      (value.coerce (.typed .bool) "b" {}).result #[] = .ok (bool false) ∧
      value.castTo .bool {} = .ok (bool true) := by
  have hnot : ¬((list [list [int 0]]).isList = true ∧ ValueType.int = .bool) := by simp
  have hint := (coercion_agrees_with_cast (list [list [int 0]]) .int "n" {} {} #[]).1
    (by simp [unwrapped, isInfinity]) (by simp [unwrapped, isFunction]) hnot
  have hbool := (coercion_agrees_with_cast (list [list [int 0]]) .bool "b" {} {} #[]).2
    rfl (by simp [unwrapped, isList]) (by simp [unwrapped, isFunction])
  refine ⟨⟨?_, ?_, hnot, hint⟩, rfl, ?_, hbool.1.trans ?_, hbool.2⟩
  · simp [unwrapped, isInfinity]
  · simp [unwrapped, isFunction]
  · simp [unwrapped, isList]
  · simp only [unwrapped]
    rfl

end Value
end ExprScript
