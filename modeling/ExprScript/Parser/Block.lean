import ExprScript.Parser.Outcome

/-!
# Statements and blocks

A block holds statements between braces, one per line. `return`, `break` and `continue` are
statements only and may have a guard; everything else is an expression.
-/
namespace ExprScript

inductive Place where
  | expr
  | ternary
  | logical
  | negation
  | sum
  | factor
  deriving DecidableEq

abbrev Rules := Place → Rule NodeId

/-- Statements up to a closing bracket, a token that begins no statement, or the end. -/
structure Statements where
  nodes : List NodeId
  /-- Why the list ended early, if it stopped before a token that begins no statement. -/
  stopped : Option Diagnostic

namespace Rule

open ExprScript.Parser

/-- An `if` with a condition behind a statement. -/
def guard (g : Rules) : Rule (Option NodeId) := do
  if ← eatKeyword .ifWord then
    let condition ← require (g .ternary)
    consumedOk (some condition)
  else emptyOk none

/-- The value behind `return`, unless there is none. -/
def returnedValue (g : Rules) : Rule (Option NodeId) := do
  if (← atBoundary) || (← checkKeyword .ifWord) then return none
  else return some (← require (g .expr))

/-- `return [value] [if condition]` -/
def returnStatement (g : Rules) : Rule NodeId := do
  let start := (← advance).span
  let value ← returnedValue g
  let condition ← require (guard g)
  consumedOk (← node (.returnValue value condition) (← spanFrom start))

/-- The label behind `break` or `continue`, which must be that of a loop around it. -/
def loopLabel : Rule (Option Name) := do
  if ← eat .atSign then
    let span ← currentSpan
    let name ← commit (identifier .expectedLoopIdentifier)
    if (← context).loops.contains (some name) then return some name
    else consumedErr ⟨.undefinedLoopIdentifier, span, [← textOf name], [], none⟩
  else return none

/-- `break [@label] [if condition]`, and the same with `continue`. -/
def loopControl (g : Rules) (keyword : Keyword)
    (build : Option Name → Option NodeId → Expr) : Rule NodeId := do
  let start := (← advance).span
  if (← context).loops.isEmpty then
    consumedErr ⟨.unexpectedToken, start, [s!"'{keyword.word}' outside of a loop"], [], none⟩
  else
    let label ← loopLabel
    let condition ← require (guard g)
    consumedOk (← node (build label condition) (← spanFrom start))

def statement (g : Rules) : Rule NodeId := do
  match (← current).kind with
  | .keyword .returnWord => returnStatement g
  | .keyword .breakWord => loopControl g .breakWord .breakLoop
  | .keyword .continueWord => loopControl g .continueWord .continueLoop
  | _ => g .expr

/-- Behind a statement the next one begins on a new line. A closing bracket of another kind is left
to the caller, which knows the one it expects. -/
def behindStatement (nodes : List NodeId) : Rule (List NodeId ⊕ Except Diagnostic Statements) := do
  match (← current).kind with
  | .mark .newline | .mark .eof | .mark (.closing .brace) => return .inl nodes
  | .mark (.closing _) => return .inr (.ok ⟨nodes.reverse, none⟩)
  | _ => return .inr (.error (← found .unexpectedToken))

/-- One round of a statement list, which stops at a soft failure; `before` holds the statements so
far, last first. -/
def nextStatement (g : Rules) (before : List NodeId) :
    Rule (List NodeId ⊕ Except Diagnostic Statements) := do
  skipNewlines
  if (← isAtEnd) || (← check (.closing .brace)) then return .inr (.ok ⟨before.reverse, none⟩)
  else
    match ← outcome (statement g) with
    | .consumedErr d => return .inr (.error d)
    | .emptyErr d => return .inr (.ok ⟨before.reverse, some d⟩)
    | .consumedOk id | .emptyOk id => behindStatement (id :: before)

def statements (g : Rules) : Rule (Except Diagnostic Statements) :=
  repeating (nextStatement g) []

def block (g : Rules) : Rule NodeId := do
  let opened ← currentSpan
  if ← eat (.opening .brace) then
    let body ← commit (statements g)
    let closed ← commit (expectCloser .brace opened body.stopped)
    let list ← storeList body.nodes
    consumedOk (← node (.block list) (opened.merge closed))
  else emptyErr (← expected "'\x7b'")

end Rule
end ExprScript
