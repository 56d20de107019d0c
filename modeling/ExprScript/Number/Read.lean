import ExprScript.Decimal.Nearest
import ExprScript.Number.Int64
import ExprScript.Text.Blank
import ExprScript.Value.Basic

/-!
# Numbers read from texts

A text is an int if it is a sign and digits that fit into 64 bits, and a float if it is a decimal
with at least one digit, with or without a point and an exponent, that does not round to infinity.
Blanks around it do not matter.
-/
namespace ExprScript

def takeSign : List Char → Bool × List Char
  | '-' :: rest => (true, rest)
  | '+' :: rest => (false, rest)
  | rest => (false, rest)

/-- Digits to the end, with a sign; read no further than to the limit. -/
def readInt? (limit : Nat) (text : List Char) : Option Int :=
  let (negative, digits) := takeSign text
  if digits.isEmpty || !digits.all Char.isDigit then none
  else
    let n : Int := valueUpTo limit digits
    some (if negative then -n else n)

def exponentLimit : Nat := 0x10000

/-- The exponent of a decimal: nothing, or a letter with digits. -/
def readExponent? : List Char → Option Int
  | [] => some 0
  | c :: rest => if c = 'e' ∨ c = 'E' then readInt? exponentLimit rest else none

/-- The digits behind a point, and what follows them. -/
def takeFraction : List Char → List Char × List Char
  | '.' :: rest => rest.span Char.isDigit
  | rest => ([], rest)

def readFloat? (text : List Char) : Option Float := do
  let (negative, rest) := takeSign text
  let (whole, rest) := rest.span Char.isDigit
  let (fraction, rest) := takeFraction rest
  guard (!(whole.isEmpty && fraction.isEmpty))
  let exponent ← readExponent? rest
  let x := nearestDecimal (whole ++ fraction) (exponent - fraction.length)
  guard x.isFinite
  return if negative then -x else x

def readNumber? (text : String) : Option Number :=
  let text := trim text.toList
  match (readInt? 0x10000000000000000 text).bind int64? with
  | some n => some (.int n)
  | none => (readFloat? text).map .float

end ExprScript
