import ExprScript.Proofs.Value.Checked
import ExprScript.Scope
import ExprScript.Value.Convert

/-!
# The kinds of converted values

A cast gives a value of the type cast to. A coercion gives one that fits the variable: of its type,
or an infinity in a numeric variable.
-/
namespace ExprScript

def Value.fits (value : Value) : DeclaredType → Bool
  | .auto => true
  | .typed type =>
    value.hasType type || (value matches .infinity _ && (type = .int || type = .float))

/-- Whether a variable holds a value of its type. -/
def Variable.WellTyped (v : Variable) : Prop := v.value.fits v.type = true

namespace Value

theorem fits_auto (value : Value) : value.fits .auto = true := rfl

theorem fits_of_hasType {value : Value} {type : ValueType} (h : value.hasType type = true) :
    value.fits (.typed type) = true := by
  simp [fits, h]

/-- What fits a typed variable is of its type or an infinity among numbers. -/
theorem fits_typed_iff {value : Value} {type : ValueType} :
    value.fits (.typed type) = true ↔
      value.hasType type = true ∨
        ((type = .int ∨ type = .float) ∧ ∃ dividend, value = .infinity dividend) := by
  cases value <;> simp [fits]

/-! ## Casts -/

theorem hasType_zero (type : ValueType) : type.zero.hasType type = true := by
  cases type <;> rfl

theorem hasType_of_castInt {n : Number} {span : Span} {value : Value}
    (h : castInt n span = .ok value) : value.hasType .int = true := by
  unfold castInt at h
  split at h
  · cases h
    rfl
  · cases h

theorem hasType_of_castScalar {value result : Value} {type : ValueType} {span : Span}
    (h : value.castScalar type span = .ok result) : result.hasType type = true := by
  unfold castScalar at h
  split at h
  · cases h
    rfl
  · cases h
    rfl
  · split at h <;> cases h
    rfl
  · cases h
    rfl
  · split at h
    · exact hasType_of_castInt h
    · cases h
  · split at h <;> cases h
    rfl
  · cases h
    rfl
  · split at h
    · exact hasType_of_castInt h
    · cases h
  · split at h <;> cases h
    rfl

theorem hasType_of_castTo {value result : Value} {type : ValueType} {span : Span}
    (h : value.castTo type span = .ok result) : result.hasType type = true := by
  unfold castTo at h
  split at h
  · cases h
    exact hasType_zero type
  · cases h
    rfl
  · cases h
    rfl
  · split at h
    · cases h
      exact hasType_zero _
    · exact hasType_of_castScalar h
    · cases h
  · exact hasType_of_castScalar h

/-! ## Coercions -/

theorem coerceScalar_fits (value : Value) (type : ValueType) (name : String) (span : Span) :
    Checked.Gives (fun result => result.fits (.typed type) = true)
      (value.coerceScalar type name span) := by
  unfold coerceScalar
  split
  · exact .pure (fits_of_hasType (hasType_zero type))
  · exact .pure rfl
  · exact .warn _ _ _ (.pure rfl)
  · exact .bind (.ofExcept fun _ h => fits_of_hasType (hasType_of_castTo h)) fun _ h =>
      .warn _ _ _ (.pure h)
  · exact .bind (.ofExcept fun _ h => fits_of_hasType (hasType_of_castTo h)) fun _ h =>
      .warn _ _ _ (.pure h)
  · exact .throw _
  · exact .throw _
  · exact .warn _ _ _ (.pure rfl)
  · exact .pure rfl
  · rename_i dividend _ hstr hbool
    refine .pure ?_
    cases type <;> simp_all [fits]
  · exact .ofExcept fun _ h => fits_of_hasType (hasType_of_castTo h)

theorem coerce_fits (value : Value) (type : DeclaredType) (name : String) (span : Span) :
    Checked.Gives (fun result => result.fits type = true) (value.coerce type name span) := by
  unfold coerce
  split
  · exact .pure rfl
  · exact .pure rfl
  · split
    · exact .warn _ _ _ (coerceScalar_fits _ _ _ _)
    · exact .throw _
  · exact coerceScalar_fits _ _ _ _

end Value
end ExprScript
