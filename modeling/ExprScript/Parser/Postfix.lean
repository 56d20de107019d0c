import ExprScript.Parser.Primary

/-!
# Calls, indexing, attributes and casts

The operators behind an expression bind tightest and may follow each other.
-/
namespace ExprScript

namespace Parser

def valueTypeOf : TokenKind → Option ValueType
  | .keyword k => k.valueType?
  | _ => none

/-- The name in front of an argument; `:>` is taken for `::` with a warning. -/
def argumentName : Parser (Option Name) := do
  match (← current).kind, ← peek with
  | .ident name, .mark (.assign none false) =>
    let _ ← advance
    let _ ← advance
    return some name
  | .ident name, .mark (.assign none true) =>
    let _ ← advance
    let sign := (← advance).span
    warn .funcAssignOperator sign [← textOf name]
    return some name
  | _, _ => return none

end Parser

namespace Rule

open ExprScript.Parser

/-- `[name ::] value` -/
def argument (g : Rules) : Rule Argument := do
  let start ← currentSpan
  let name ← argumentName
  let value ← require (g .ternary)
  return ⟨name, value, ← spanFrom start⟩

/-- `callee(arguments)` -/
def call (g : Rules) (callee : NodeId) : Rule NodeId := do
  let opened := (← advance).span
  let args ← commaList .paren (argument g)
  let closed ← commit (expectCloser .paren opened none)
  let run ← storeArgs args
  consumedOk (← node (.call callee run) ((← spanOf callee).merge closed))

/-- `i` or `first to last` -/
def indexSpec (g : Rules) : Rule IndexSpec := do
  let first ← require (g .ternary)
  if ← eatKeyword .toWord then return .range first (← require (g .ternary))
  else return .single first

/-- One selection, then a comma or the end. At least one is required after a comma. -/
def nextSpec (g : Rules) (before : List IndexSpec) :
    Rule (List IndexSpec ⊕ List IndexSpec) := do
  let spec ← indexSpec g
  skipNewlines
  if ← eat .comma then
    skipNewlines
    return .inl (spec :: before)
  else return .inr (spec :: before).reverse

/-- `target[selections]`; without selections it is the target itself. -/
def index (g : Rules) (target : NodeId) : Rule NodeId := do
  let opened := (← advance).span
  skipNewlines
  if ← eat (.closing .square) then consumedOk target
  else
    let specs ← repeating (nextSpec g) []
    let closed ← commit (expectCloser .square opened none)
    let run ← storeSpecs specs
    consumedOk (← node (.index target run) ((← spanOf target).merge closed))

/-- `target.name` -/
def member (target : NodeId) : Rule NodeId := do
  let _ ← advance
  let name ← commit (identifier .expectedAttribute)
  node (.member target name) (← spanFrom (← spanOf target))

/-- `operand as type` -/
def cast (operand : NodeId) : Rule NodeId := do
  let _ ← advance
  match valueTypeOf (← current).kind with
  | none => consumedErr (← found .expectedType)
  | some type =>
    let _ ← advance
    node (.cast operand type) (← spanFrom (← spanOf operand))

def nextPostfix (g : Rules) (target : NodeId) : Rule (NodeId ⊕ NodeId) := do
  match (← current).kind with
  | .mark (.opening .paren) => .inl <$> require (call g target)
  | .mark (.opening .square) => .inl <$> require (index g target)
  | .mark .dot => .inl <$> member target
  | .keyword .asWord => .inl <$> cast target
  | _ => return .inr target

/-- An atom with any number of operators behind it. -/
def suffixed (g : Rules) : Rule NodeId := do
  let target ← atom g
  consumedOk (← repeating (nextPostfix g) target)

end Rule
end ExprScript
