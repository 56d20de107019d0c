import ExprScript.Parser.Block

/-!
# Primary expressions

Literals, names, groups, lists, and the constructs with blocks: conditionals, loops and functions.
-/
namespace ExprScript

namespace Parser

def declaredTypeOf : TokenKind → Option DeclaredType
  | .keyword k => k.declaredType?
  | _ => none

def functionName : Parser (Option Name) := do
  match (← current).kind with
  | .ident name =>
    let _ ← advance
    return some name
  | _ => return none

end Parser

namespace Rule

open ExprScript.Parser

/-- One item, then a comma or the end of a list between brackets. -/
def commaRound {α : Type} (closing : Bracket) (item : Rule α) (before : List α) :
    Rule (List α ⊕ List α) := do
  if (← check (.closing closing)) || (← isAtEnd) then return .inr before.reverse
  else
    let next ← require item
    skipNewlines
    if ← eat .comma then
      skipNewlines
      return .inl (next :: before)
    else return .inr (next :: before).reverse

/-- Items separated by commas up to a bracket, which stays; a comma may stand behind the last. -/
def commaList {α : Type} (closing : Bracket) (item : Rule α) : Rule (List α) := do
  skipNewlines
  repeating (commaRound closing item) []

/-- An expression in parentheses, which leave no trace in the tree. -/
def group (g : Rules) : Rule NodeId := do
  let opened := (← advance).span
  skipNewlines
  let inner ← require (g .expr)
  let _ ← commit (expectCloser .paren opened none)
  consumedOk inner

/-- `[a, b, …]` -/
def listLiteral (g : Rules) : Rule NodeId := do
  let opened := (← advance).span
  let items ← commaList .square (g .ternary)
  let closed ← commit (expectCloser .square opened none)
  let list ← storeList items
  consumedOk (← node (.list list) (opened.merge closed))

/-! ## Conditionals -/

def branch (g : Rules) : Rule Branch := do
  let condition ← require (g .logical)
  let body ← require (block g)
  return ⟨condition, body⟩

/-- An `elif` or `else`, which may stand on a later line. If there is none the cursor is rolled back
to the line breaks. -/
def nextBranch (g : Rules) (before : List Branch) :
    Rule (List Branch ⊕ (List Branch × Option NodeId)) := do
  let start ← position
  skipNewlines
  if ← eatKeyword .elifWord then
    return .inl ((← branch g) :: before)
  else if ← eatKeyword .elseWord then
    return .inr (before.reverse, some (← require (block g)))
  else
    setPosition start
    return .inr (before.reverse, none)

/-- `if c {…} elif c {…} else {…}` -/
def conditional (g : Rules) : Rule NodeId := do
  let start := (← advance).span
  let first ← branch g
  let (all, otherwise) ← repeating (nextBranch g) [first]
  let run ← storeBranches all
  consumedOk (← node (.ifElse run otherwise) (← spanFrom start))

/-- One `option` or `default` of a case; there is at most one default. -/
def nextArm (g : Rules) (before : List CaseArm × Option NodeId) :
    Rule ((List CaseArm × Option NodeId) ⊕ (List CaseArm × Option NodeId)) := do
  let (arms, otherwise) := before
  skipNewlines
  if ← eatKeyword .option then
    let pattern ← require (g .factor)
    let body ← require (block g)
    return .inl (⟨pattern, body⟩ :: arms, otherwise)
  else if ← checkKeyword .default then
    if otherwise.isSome then
      consumedErr ⟨.unexpectedToken, ← currentSpan, ["second 'default' in case"], [], none⟩
    else
      let _ ← advance
      return .inl (arms, some (← require (block g)))
  else return .inr (arms.reverse, otherwise)

/-- `case subject { option pattern {…} … default {…} }` -/
def caseOf (g : Rules) : Rule NodeId := do
  let start := (← advance).span
  let subject ← require (g .logical)
  let opened ← currentSpan
  if ← eat (.opening .brace) then
    let (arms, otherwise) ← repeating (nextArm g) ([], none)
    let _ ← commit (expectCloser .brace opened none)
    let run ← storeArms arms
    consumedOk (← node (.caseOf subject run otherwise) (← spanFrom start))
  else consumedErr (← expected "'\x7b'")

/-! ## Loops -/

/-- A block inside one more loop. -/
def loopBody (g : Rules) (label : Option Name) : Rule NodeId :=
  withLoops (label :: ·) (block g)

/-- `[first to] last` -/
def loopBounds (g : Rules) : Rule (Option NodeId × NodeId) := do
  let bound ← require (g .sum)
  if ← eatKeyword .toWord then return (some bound, ← require (g .sum))
  else return (none, bound)

/-- `[step s]` -/
def loopStep (g : Rules) : Rule (Option NodeId) := do
  if ← eatKeyword .step then return some (← require (g .sum))
  else return none

/-- `[:: name]` -/
def loopCounter : Rule (Option Name) := do
  if ← eat (.assign none false) then return some (← commit (identifier .expectedIdentifier))
  else return none

/-- `iterate [first to] last [step s] [:: name] {…}` -/
def iterate (g : Rules) (label : Option Name) (start : Span) : Rule NodeId := do
  let _ ← advance
  let (first, last) ← loopBounds g
  let step ← loopStep g
  let counter ← loopCounter
  let body ← require (loopBody g label)
  consumedOk (← node (.iterate label first last step counter body) (← spanFrom start))

/-- `while condition {…}` -/
def whileLoop (g : Rules) (label : Option Name) (start : Span) : Rule NodeId := do
  let _ ← advance
  let condition ← require (g .logical)
  let body ← require (loopBody g label)
  consumedOk (← node (.whileLoop label condition body) (← spanFrom start))

/-- `@name` before a loop. -/
def labelledLoop (g : Rules) : Rule NodeId := do
  let start := (← advance).span
  let label ← commit (identifier .expectedLoopIdentifier)
  match (← current).kind with
  | .keyword .iterate => iterate g (some label) start
  | .keyword .whileWord => whileLoop g (some label) start
  | _ =>
    let found ← describeCurrent
    consumedErr ⟨.unexpectedToken, ← currentSpan, [s!"{found} after a loop label"], [], none⟩

/-! ## Functions -/

/-- The default of a parameter, if it has one; `:>` is taken for `::` with a warning. -/
def parameterDefault (g : Rules) (name : Name) : Rule (Option NodeId) := do
  match (← current).kind with
  | .mark (.assign none false) =>
    let _ ← advance
    return some (← require (g .ternary))
  | .mark (.assign none true) =>
    let sign := (← advance).span
    warn .funcArgRet sign [← textOf name]
    return some (← require (g .ternary))
  | _ => return none

/-- `type name [:: default]` -/
def parameter (g : Rules) : Rule Parameter := do
  let token ← current
  match declaredTypeOf token.kind with
  | none => emptyErr (← found .expectedType)
  | some type =>
    let _ ← advance
    let name ← commit (identifier .expectedIdentifier)
    let default ← parameterDefault g name
    consumedOk ⟨name, type, default, ← spanFrom token.span⟩

/-- `def [name](parameters) {…}`. Loops around a function do not reach into its body. -/
def function (g : Rules) : Rule NodeId := do
  let start := (← advance).span
  let name ← functionName
  let opened ← currentSpan
  if ← eat (.opening .paren) then
    let params ← commaList .paren (parameter g)
    let _ ← commit (expectCloser .paren opened none)
    let body ← require (withLoops (fun _ => []) (block g))
    let run ← storeParams params
    consumedOk (← node (.define name run body) (← spanFrom start))
  else consumedErr (← expected "'('")

/-! ## Atoms -/

def literal (expr : Expr) : Rule NodeId := do
  let token ← advance
  consumedOk (← node expr token.span)

def atom (g : Rules) : Rule NodeId := do
  let token ← current
  match token.kind with
  | .int n => literal (.int n)
  | .float x => literal (.float x)
  | .str text => literal (.str text)
  | .ident name => literal (.ident name)
  | .mark (.opening .paren) => group g
  | .mark (.opening .square) => listLiteral g
  | .mark .atSign => labelledLoop g
  | .keyword .ifWord => conditional g
  | .keyword .caseWord => caseOf g
  | .keyword .iterate => iterate g none token.span
  | .keyword .whileWord => whileLoop g none token.span
  | .keyword .defWord => function g
  | _ => emptyErr (← found .expectedExpr)

end Rule
end ExprScript
