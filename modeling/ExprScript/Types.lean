/-!
# Types and operators of the language

The types that a program can name, and the operators of its expressions.
-/
namespace ExprScript

inductive ValueType where
  | int
  | float
  | bool
  | str
  | list
  deriving DecidableEq, Inhabited

def ValueType.name : ValueType → String
  | .int => "int"
  | .float => "float"
  | .bool => "bool"
  | .str => "str"
  | .list => "list"

/-- The type a variable is declared with; `auto` takes any value. -/
inductive DeclaredType where
  | auto
  | typed (type : ValueType)
  deriving DecidableEq, Inhabited

def DeclaredType.name : DeclaredType → String
  | .auto => "auto"
  | .typed type => type.name

/-- The operators that compute, which also occur in compound assignments. -/
inductive ArithOp where
  | add
  | sub
  | mul
  | div
  | floorDiv
  | mod
  | pow
  deriving DecidableEq, Inhabited

def ArithOp.symbol : ArithOp → String
  | .add => "+"
  | .sub => "-"
  | .mul => "*"
  | .div => "/"
  | .floorDiv => "//"
  | .mod => "%"
  | .pow => "**"

inductive OrderOp where
  | lt
  | le
  | gt
  | ge
  deriving DecidableEq, Inhabited

def OrderOp.symbol : OrderOp → String
  | .lt => "<"
  | .le => "<="
  | .gt => ">"
  | .ge => ">="

inductive BinaryOp where
  | arith (op : ArithOp)
  | eq
  | ne
  | order (op : OrderOp)
  | and
  | or
  deriving DecidableEq, Inhabited

def BinaryOp.symbol : BinaryOp → String
  | .arith op => op.symbol
  | .eq => "=="
  | .ne => "!="
  | .order op => op.symbol
  | .and => "and"
  | .or => "or"

inductive UnaryOp where
  | neg
  | plus
  | not
  deriving DecidableEq, Inhabited

def UnaryOp.symbol : UnaryOp → String
  | .neg => "-"
  | .plus => "+"
  | .not => "not"

/-- What an assignment does with the old value: nothing, or combine it with the new one. -/
abbrev AssignOp := Option ArithOp

namespace AssignOp

def inner (op : AssignOp) : String :=
  (op.map ArithOp.symbol).getD ""

/-- The operator that assigns: `::` or `:+:`. -/
def setSymbol (op : AssignOp) : String := ":" ++ op.inner ++ ":"

/-- The operator that assigns and gives the new value: `:>` or `:+>`. -/
def yieldSymbol (op : AssignOp) : String := ":" ++ op.inner ++ ">"

end AssignOp
end ExprScript
