import ExprScript.Value.Basic

/-!
# Equality of values

Programs compare ints and floats by their numeric value, infinities by their sign, and lists element
by element. Strict equality tells ints from floats and infinities by what was divided.
-/
namespace ExprScript

namespace Number

/-- Numbers of one kind that are equal. -/
def identical : Number → Number → Bool
  | .int a, .int b => a = b
  | .float a, .float b => a == b
  | _, _ => false

end Number

def Dividend.identical : Dividend → Dividend → Bool
  | .number a, .number b => a.identical b
  | .bool a, .bool b => a = b
  | _, _ => false

namespace Value

mutual

/-- Equality as programs see it. -/
def equals : Value → Value → Bool
  | .null, .null => true
  | .bool a, .bool b => a = b
  | .int a, .int b => a = b
  | .int a, .float b => Int64Ops.toFloat a == b
  | .float a, .int b => a == Int64Ops.toFloat b
  | .float a, .float b => a == b
  | .str a, .str b => a = b
  | .list a, .list b => equalsAll a b
  | .infinity a, .infinity b => a.isNegative = b.isNegative
  | .function a, .function b => a.id = b.id
  | .builtin a, .builtin b => a.id = b.id
  | _, _ => false

def equalsAll : List Value → List Value → Bool
  | [], [] => true
  | a :: as, b :: bs => equals a b && equalsAll as bs
  | _, _ => false

end

mutual

/-- Equality that tells all kinds of values apart. -/
def identical : Value → Value → Bool
  | .null, .null => true
  | .bool a, .bool b => a = b
  | .int a, .int b => a = b
  | .float a, .float b => a == b
  | .str a, .str b => a = b
  | .list a, .list b => identicalAll a b
  | .infinity a, .infinity b => a.identical b
  | .function a, .function b => a.id = b.id
  | .builtin a, .builtin b => a.id = b.id
  | _, _ => false

def identicalAll : List Value → List Value → Bool
  | [], [] => true
  | a :: as, b :: bs => identical a b && identicalAll as bs
  | _, _ => false

end

end Value
end ExprScript
