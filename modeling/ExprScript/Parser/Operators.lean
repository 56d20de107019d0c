import ExprScript.Parser.Postfix

/-!
# Operators, bindings and the precedence of both

From the loosest to the tightest: declarations and assignments, the conditional operator, `and` and
`or`, `not`, comparisons, sums, products, signs, powers, and the operators behind an expression.
Chains of equal precedence lean left; the conditional operator and powers lean right.
-/
namespace ExprScript

namespace Parser

def logicalOp? : TokenKind → Option BinaryOp
  | .keyword .and => some .and
  | .keyword .or => some .or
  | _ => none

def comparisonOp? : TokenKind → Option BinaryOp
  | .mark .equal => some .eq
  | .mark .notEqual => some .ne
  | .mark (.order op) => some (.order op)
  | _ => none

def sumOp? : TokenKind → Option BinaryOp
  | .mark (.arith .add) => some (.arith .add)
  | .mark (.arith .sub) => some (.arith .sub)
  | _ => none

def productOp? : TokenKind → Option BinaryOp
  | .mark (.arith .mul) => some (.arith .mul)
  | .mark (.arith .div) => some (.arith .div)
  | .mark (.arith .floorDiv) => some (.arith .floorDiv)
  | .mark (.arith .mod) => some (.arith .mod)
  | _ => none

def signOp? : TokenKind → Option UnaryOp
  | .mark (.arith .sub) => some .neg
  | .mark (.arith .add) => some .plus
  | .mark .not => some .not
  | _ => none

def binary (op : BinaryOp) (left right : NodeId) : Parser NodeId := do
  node (.binary op left right) ((← spanOf left).merge (← spanOf right))

/-- Whether a node is a cast to `bool`, before which the first branch may be left out. -/
def isBoolCast (id : NodeId) : Parser Bool := fun _ s =>
  let answer :=
    match s.arena.node? id with
    | some ⟨.cast _ .bool, _⟩ => true
    | _ => false
  .done false answer s

end Parser

namespace Rule

open ExprScript.Parser

def nextOperand (operand : Rule NodeId) (operator? : TokenKind → Option BinaryOp)
    (left : NodeId) : Rule (NodeId ⊕ NodeId) := do
  match operator? (← current).kind with
  | some op =>
    let _ ← advance
    let right ← require operand
    return .inl (← binary op left right)
  | none => return .inr left

/-- Operands joined by operators of one level, leaning left. -/
def level (operand : Rule NodeId) (operator? : TokenKind → Option BinaryOp) : Rule NodeId := do
  let left ← operand
  consumedOk (← repeating (nextOperand operand operator?) left)

/-- `base ** exponent`, where the exponent may have a sign and a power of its own. -/
def power (g : Rules) : Rule NodeId := do
  let base ← suffixed g
  if ← eat (.arith .pow) then
    let exponent ← require (g .factor)
    consumedOk (← binary (.arith .pow) base exponent)
  else consumedOk base

/-- A sign before a factor, or a power. -/
def factor (g : Rules) : Rule NodeId := do
  match signOp? (← current).kind with
  | some op =>
    let start := (← advance).span
    let operand ← require (g .factor)
    consumedOk (← node (.unary op operand) (← spanFrom start))
  | none => power g

def product (g : Rules) : Rule NodeId := level (factor g) productOp?

def sum (g : Rules) : Rule NodeId := level (product g) sumOp?

def comparison (g : Rules) : Rule NodeId := level (sum g) comparisonOp?

def negation (g : Rules) : Rule NodeId := do
  if ← checkKeyword .not then
    let start := (← advance).span
    let operand ← require (g .negation)
    consumedOk (← node (.unary .not operand) (← spanFrom start))
  else comparison g

def logical (g : Rules) : Rule NodeId := level (negation g) logicalOp?

/-- What stands between the question mark and the colon. -/
def positiveBranch (g : Rules) (condition : NodeId) : Rule (Option NodeId) := do
  if ← check .colon then
    if ← isBoolCast condition then return none
    else consumedErr (← found .expectedExpr)
  else return some (← require (g .ternary))

/-- What stands behind the colon; both may be missing. -/
def negativeBranch (g : Rules) (positive : Option NodeId) : Rule (Option NodeId) := do
  if ← eat .colon then
    if positive.isSome && (← atBoundary) then return none
    else return some (← require (g .ternary))
  else if ← atBoundary then return none
  else consumedErr (← expected "':'")

/-- `condition ? positive : negative` -/
def ternary (g : Rules) : Rule NodeId := do
  let condition ← logical g
  if ← eat .question then
    let positive ← positiveBranch g condition
    let negative ← negativeBranch g positive
    consumedOk (← node (.ternary condition positive negative) (← spanFrom (← spanOf condition)))
  else consumedOk condition

/-- `:: value` or `:> value`, which may be left out if the type says enough. -/
def initializer (g : Rules) (type : DeclaredType) : Rule (Option NodeId × Bool) := do
  match (← current).kind with
  | .mark (.assign none yields) =>
    let _ ← advance
    return (some (← require (g .expr)), yields)
  | .mark (.assign (some _) _) => consumedErr (← found .expectedAssignmentOperator)
  | _ =>
    if type = .auto then consumedErr (← found .expectedExpr) else return (none, false)

/-- `type name [:: value]` -/
def declaration (g : Rules) (type : DeclaredType) : Rule NodeId := do
  let start := (← advance).span
  let name ← commit (identifier .expectedIdentifier)
  let (value, yields) ← initializer g type
  consumedOk (← node (.declare type name value yields) (← spanFrom start))

/-- `name :: value` and the other assignments to a name that exists. -/
def assignment (g : Rules) (name : Name) : Rule NodeId := do
  let start := (← advance).span
  match (← current).kind with
  | .mark (.assign op yields) =>
    let _ ← advance
    let value ← require (g .expr)
    consumedOk (← node (.assign name op value yields) (← spanFrom start))
  | _ => consumedErr (← found .expectedAssignmentOperator)

/-- Any expression, declarations and assignments included. -/
def expr (g : Rules) : Rule NodeId := do
  match (← current).kind, ← peek with
  | .keyword k, _ =>
    match k.declaredType? with
    | some type => declaration g type
    | none => ternary g
  | .ident name, .mark (.assign _ _) => assignment g name
  | _, _ => ternary g

def production (g : Rules) : Place → Rule NodeId
  | .expr => expr g
  | .ternary => ternary g
  | .logical => logical g
  | .negation => negation g
  | .sum => sum g
  | .factor => factor g

end Rule
end ExprScript
