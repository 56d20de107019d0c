import ExprScript.Proofs.Value.Conversions
import ExprScript.Proofs.Value.Kinds

/-!
# Conversions repeated

A value that was converted to a type stays as it is when it is converted to that type again. A cast
gives values of the type only, and leaves these as they are. So does a coercion, but that it lets
infinities into numeric variables: there they stay infinities. Nothing is left to be warned of.
-/
namespace ExprScript.Value

variable {value : Value} {type : ValueType}

theorem castTo_of_hasType (h : value.hasType type = true) (span : Span) :
    value.castTo type span = .ok value := by
  unfold hasType at h
  split at h
  · rfl
  · rfl
  · rfl
  · rfl
  · rfl
  · cases h

theorem coerce_of_hasType (h : value.hasType type = true) (name : String) (span : Span) :
    value.coerce (.typed type) name span = pure value := by
  cases hlist : value.isList with
  | true =>
    obtain ⟨items, rfl⟩ := exists_items_of_isList hlist
    cases type with
    | list => rfl
    | _ => cases h
  | false =>
    rw [coerce_of_not_isList hlist]
    cases value with
    | int | float | bool =>
      cases type with
      | int | float | bool =>
        rw [coerceScalar_of_number rfl (by simp) (by simp), castTo_of_hasType h]
        rfl
      | str | list => cases h
    | str text =>
      cases type with
      | str => rfl
      | _ => cases h
    | list items => cases hlist
    | null | infinity | function | builtin => cases h

/-- What fits a variable is stored there as it is, without a warning. -/
theorem coerce_of_fits (h : value.fits (.typed type) = true) (name : String) (span : Span) :
    value.coerce (.typed type) name span = pure value := by
  rcases fits_typed_iff.mp h with htype | ⟨rfl | rfl, dividend, rfl⟩
  · exact coerce_of_hasType htype name span
  · rfl
  · rfl

/-- A cast gives a value of the type, which is cast to the type as itself, down to the bits of a
float. A coercion gives one too, or an infinity for a numeric type, and coerced again this value
stays itself and adds nothing to the warnings from before. -/
theorem conversions_settle (value : Value) (type : ValueType) (name : String) (span : Span) :
    (∀ result, value.castTo type span = .ok result →
      result.hasType type = true ∧ ∀ place, result.castTo type place = .ok result) ∧
    ∀ before result after, value.coerce (.typed type) name span before = .ok result after →
      (result.hasType type = true ∨
        (type = .int ∨ type = .float) ∧ ∃ dividend, result = .infinity dividend) ∧
      ∀ other place warned,
        result.coerce (.typed type) other place warned = .ok result warned := by
  constructor
  · intro result hcast
    have htype := hasType_of_castTo hcast
    exact ⟨htype, castTo_of_hasType htype⟩
  · intro before result after hcoerce
    have hfits := coerce_fits value (.typed type) name span before result after hcoerce
    refine ⟨fits_typed_iff.mp hfits, fun other place warned => ?_⟩
    rw [coerce_of_fits hfits]
    rfl

/-- True inside of two lists is 1 by both conversions, of which the second has warned, and an
infinity that comes out of a list stays one. -/
theorem nested_true_settles :
    let value := list [list [bool true]]
    (value.castTo .int {} = .ok (int 1) ∧ castTo (int 1) .int {} = .ok (int 1)) ∧
    (∃ warnings, value.coerce (.typed .int) "n" {} #[] = .ok (int 1) warnings ∧
      warnings.size = 1 ∧ coerce (int 1) (.typed .int) "n" {} #[] = .ok (int 1) #[]) ∧
    ∃ warnings,
      coerce (list [infinity (.bool true)]) (.typed .float) "x" {} #[] =
        .ok (infinity (.bool true)) warnings ∧
      coerce (infinity (.bool true)) (.typed .float) "x" {} #[] =
        .ok (infinity (.bool true)) #[] := by
  have hcast : castTo (list [list [bool true]]) .int {} = .ok (int 1) := by
    simp only [castTo, singleElement?]
    rfl
  have hcoerce : coerce (list [list [bool true]]) (.typed .int) "n" {} #[] =
      .ok (int 1) #[⟨.valueFromList, {}, ["int", "n"], [], none⟩] := by
    simp only [coerce, singleElement?]
    rfl
  have hinfinity : coerce (list [infinity (.bool true)]) (.typed .float) "x" {} #[] =
      .ok (infinity (.bool true)) #[⟨.valueFromList, {}, ["float", "x"], [], none⟩] := by
    simp only [coerce, singleElement?]
    rfl
  have hnested := conversions_settle (list [list [bool true]]) .int "n" {}
  have hsingle := conversions_settle (list [infinity (.bool true)]) .float "x" {}
  exact ⟨⟨hcast, (hnested.1 _ hcast).2 {}⟩,
    ⟨_, hcoerce, rfl, (hnested.2 _ _ _ hcoerce).2 "n" {} #[]⟩,
    ⟨_, hinfinity, (hsingle.2 _ _ _ hinfinity).2 "x" {} #[]⟩⟩

end ExprScript.Value
