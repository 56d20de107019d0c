/-!
# Runs of decimal digits

The value of a run of digits, and the value as far as a limit: where only small numbers matter, the
digits behind the first number that is too large are not looked at.
-/
namespace ExprScript

def appendDigit (value : Nat) (digit : Char) : Nat := value * 10 + (digit.toNat - '0'.toNat)

theorem le_appendDigit (value : Nat) (digit : Char) : value ≤ appendDigit value digit := by
  unfold appendDigit
  omega

/-- The value of a run of decimal digits. -/
def digitsValue (digits : List Char) : Nat := digits.foldl appendDigit 0

theorem le_foldl_appendDigit (value : Nat) (digits : List Char) :
    value ≤ digits.foldl appendDigit value := by
  induction digits generalizing value with
  | nil => exact Nat.le_refl value
  | cons digit rest ih => exact Nat.le_trans (le_appendDigit value digit) (ih _)

/-- The value of a run of digits, read no further than to the limit. -/
def valueUpTo (limit : Nat) (digits : List Char) : Nat :=
  digits.foldl (fun value digit => if value < limit then appendDigit value digit else value) 0

/-- Below the limit every digit counts. -/
theorem valueUpTo_eq_of_lt {limit : Nat} {digits : List Char} (h : digitsValue digits < limit) :
    valueUpTo limit digits = digitsValue digits := by
  suffices general : ∀ value, digits.foldl appendDigit value < limit →
      digits.foldl (fun value digit => if value < limit then appendDigit value digit else value)
        value = digits.foldl appendDigit value from general 0 h
  clear h
  induction digits with
  | nil => exact fun _ _ => rfl
  | cons digit rest ih =>
    intro value hvalue
    have hlt : value < limit :=
      Nat.lt_of_le_of_lt (le_foldl_appendDigit value (digit :: rest)) hvalue
    simp only [List.foldl_cons, hlt, ↓reduceIte]
    exact ih _ hvalue

end ExprScript
