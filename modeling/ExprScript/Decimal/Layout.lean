import ExprScript.Decimal.Shortest

/-!
# Floats as text

The digits are those of the shortest decimal. A style says which numbers are written without an
exponent, and which whole numbers show that they are floats by a zero behind the point.
-/
namespace ExprScript

/-- How floats are written. A number has point position `p` if it is `0.d₁d₂… * 10 ^ p` with a digit
`d₁` other than zero. -/
structure FloatStyle where
  /-- The least point position written without an exponent. -/
  positionalFrom : Int
  /-- The greatest point position written without an exponent. -/
  positionalTo : Int
  /-- The greatest point position at which a whole number gets a zero behind the point. -/
  fractionTo : Int

/-- Never an exponent, and no needless zero: `5`, `0.1`. Point positions of doubles lie between
`-323` and `309`. -/
def FloatStyle.plain : FloatStyle := ⟨-400, 400, -401⟩

/-- Never an exponent; whole numbers below `10 ^ 16` show a zero behind the point. -/
def FloatStyle.value : FloatStyle := ⟨-400, 400, 16⟩

/-- An exponent below `10 ^ -4` and from `10 ^ 16` on; all whole numbers between show a zero. -/
def FloatStyle.listing : FloatStyle := ⟨-3, 16, 16⟩

def zeros (count : Nat) : List Char := List.replicate count '0'

/-- Digits with the point behind the first `position` of them, filled up with zeros. -/
def layoutPositional (style : FloatStyle) (digits : List Char) (position : Int) : List Char :=
  let shown : List Char := if position ≤ style.fractionTo then ['.', '0'] else []
  if position ≤ 0 then ['0', '.'] ++ zeros (-position).toNat ++ digits
  else if (digits.length : Int) ≤ position then
    digits ++ zeros (position.toNat - digits.length) ++ shown
  else digits.take position.toNat ++ '.' :: digits.drop position.toNat

/-- Digits with the point behind the first and the power of ten that makes up for it. -/
def layoutScientific (digits : List Char) (position : Int) : List Char :=
  let mantissa :=
    match digits with
    | first :: rest@(_ :: _) => first :: '.' :: rest
    | short => short
  mantissa ++ 'e' :: (toString (position - 1)).toList

def layoutDecimal (style : FloatStyle) (d : Decimal) : List Char :=
  let digits := Nat.toDigits 10 d.coefficient
  let position := digits.length + d.exponent
  if style.positionalFrom ≤ position ∧ position ≤ style.positionalTo then
    layoutPositional style digits position
  else layoutScientific digits position

def formatFloat (style : FloatStyle) (x : Float) : String :=
  let sign := fun negative => if negative then "-" else ""
  match FloatParts.of x with
  | .nan => "NaN"
  | .infinite negative => sign negative ++ "inf"
  | .finite negative 0 _ => sign negative ++ (if 0 ≤ style.fractionTo then "0.0" else "0")
  | .finite negative significand exponent =>
    sign negative ++ String.ofList (layoutDecimal style (shortestDecimal significand exponent))

end ExprScript
