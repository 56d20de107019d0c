import ExprScript.Parser.Program

/-!
# The grammar with measured flags

The productions once more, as parsers. Here nobody says whether a token was taken: it is measured.
Two parsers together took a token if either did, and a failure is soft if nothing was taken before.
So no production is committed by hand, and one that is to leave line breaks where they are looks
past them, where a rule goes back.

The tags of the rules tell what is measured here, and a parse comes to the same (`parse_eq`). What
is proved of these parsers holds of the rules.
-/
namespace ExprScript

abbrev Grammar := Place → Parser NodeId

namespace Parser

/-- Turns a soft failure into a value. -/
def orStop {α : Type} (p : Parser α) : Parser (Except Diagnostic α) := fun c s =>
  match p c s with
  | .done taken a s => .done taken (.ok a) s
  | .failed false (.fault d) s => .done false (.error d) s
  | .failed taken e s => .failed taken e s

/-- The kind of the first token that is no line break. -/
def pastNewlines : Parser TokenKind := fun _ s =>
  .done false ((s.ahead.dropWhile (·.kind.isMark .newline)).headD eofToken).kind s

/-! ## Statements and blocks -/

def guard (g : Grammar) : Parser (Option NodeId) := do
  if ← eatKeyword .ifWord then return some (← g .ternary)
  else return none

def returnedValue (g : Grammar) : Parser (Option NodeId) := do
  if (← atBoundary) || (← checkKeyword .ifWord) then return none
  else return some (← g .expr)

def returnStatement (g : Grammar) : Parser NodeId := do
  let start := (← advance).span
  let value ← returnedValue g
  let condition ← guard g
  node (.returnValue value condition) (← spanFrom start)

def loopLabel : Parser (Option Name) := do
  if ← eat .atSign then
    let span ← currentSpan
    let name ← identifier .expectedLoopIdentifier
    if (← context).loops.contains (some name) then return some name
    else fault .undefinedLoopIdentifier span [← textOf name]
  else return none

def loopControl (g : Grammar) (keyword : Keyword)
    (build : Option Name → Option NodeId → Expr) : Parser NodeId := do
  let start := (← advance).span
  if (← context).loops.isEmpty then
    fault .unexpectedToken start [s!"'{keyword.word}' outside of a loop"]
  else
    let label ← loopLabel
    let condition ← guard g
    node (build label condition) (← spanFrom start)

def statement (g : Grammar) : Parser NodeId := do
  match (← current).kind with
  | .keyword .returnWord => returnStatement g
  | .keyword .breakWord => loopControl g .breakWord .breakLoop
  | .keyword .continueWord => loopControl g .continueWord .continueLoop
  | _ => g .expr

def nextStatement (g : Grammar) (before : List NodeId) : Parser (List NodeId ⊕ Statements) := do
  skipNewlines
  if (← isAtEnd) || (← check (.closing .brace)) then return .inr ⟨before.reverse, none⟩
  else
    match ← orStop (statement g) with
    | .error d => return .inr ⟨before.reverse, some d⟩
    | .ok id =>
      match (← current).kind with
      | .mark .newline | .mark .eof | .mark (.closing .brace) => return .inl (id :: before)
      | .mark (.closing _) => return .inr ⟨(id :: before).reverse, none⟩
      | _ => failFound .unexpectedToken

def statements (g : Grammar) : Parser Statements :=
  repeating (nextStatement g) []

def block (g : Grammar) : Parser NodeId := do
  let opened ← currentSpan
  if ← eat (.opening .brace) then
    let body ← statements g
    let closed ← expectCloser .brace opened body.stopped
    let list ← storeList body.nodes
    node (.block list) (opened.merge closed)
  else failExpected "'\x7b'"

/-! ## Lists -/

def commaRound {α : Type} (closing : Bracket) (item : Parser α) (before : List α) :
    Parser (List α ⊕ List α) := do
  if (← check (.closing closing)) || (← isAtEnd) then return .inr before.reverse
  else
    let next ← item
    skipNewlines
    if ← eat .comma then
      skipNewlines
      return .inl (next :: before)
    else return .inr (next :: before).reverse

/-- Items separated by commas up to a bracket, which stays; a comma may stand behind the last. -/
def commaList {α : Type} (closing : Bracket) (item : Parser α) : Parser (List α) := do
  skipNewlines
  repeating (commaRound closing item) []

def group (g : Grammar) : Parser NodeId := do
  let opened := (← advance).span
  skipNewlines
  let inner ← g .expr
  let _ ← expectCloser .paren opened none
  return inner

def listLiteral (g : Grammar) : Parser NodeId := do
  let opened := (← advance).span
  let items ← commaList .square (g .ternary)
  let closed ← expectCloser .square opened none
  let list ← storeList items
  node (.list list) (opened.merge closed)

/-! ## Conditionals -/

def branch (g : Grammar) : Parser Branch := do
  let condition ← g .logical
  let body ← block g
  return ⟨condition, body⟩

def nextBranch (g : Grammar) (before : List Branch) :
    Parser (List Branch ⊕ (List Branch × Option NodeId)) := do
  match ← pastNewlines with
  | .keyword .elifWord =>
    skipNewlines
    let _ ← advance
    return .inl ((← branch g) :: before)
  | .keyword .elseWord =>
    skipNewlines
    let _ ← advance
    return .inr (before.reverse, some (← block g))
  | _ => return .inr (before.reverse, none)

def conditional (g : Grammar) : Parser NodeId := do
  let start := (← advance).span
  let first ← branch g
  let (all, otherwise) ← repeating (nextBranch g) [first]
  let run ← storeBranches all
  node (.ifElse run otherwise) (← spanFrom start)

def nextArm (g : Grammar) (before : List CaseArm × Option NodeId) :
    Parser ((List CaseArm × Option NodeId) ⊕ (List CaseArm × Option NodeId)) := do
  let (arms, otherwise) := before
  skipNewlines
  if ← eatKeyword .option then
    let pattern ← g .factor
    let body ← block g
    return .inl (⟨pattern, body⟩ :: arms, otherwise)
  else if ← checkKeyword .default then
    if otherwise.isSome then
      fault .unexpectedToken (← currentSpan) ["second 'default' in case"]
    else
      let _ ← advance
      return .inl (arms, some (← block g))
  else return .inr (arms.reverse, otherwise)

def caseOf (g : Grammar) : Parser NodeId := do
  let start := (← advance).span
  let subject ← g .logical
  let opened ← currentSpan
  if ← eat (.opening .brace) then
    let (arms, otherwise) ← repeating (nextArm g) ([], none)
    let _ ← expectCloser .brace opened none
    let run ← storeArms arms
    node (.caseOf subject run otherwise) (← spanFrom start)
  else failExpected "'\x7b'"

/-! ## Loops -/

def loopBody (g : Grammar) (label : Option Name) : Parser NodeId :=
  withLoops (label :: ·) (block g)

def loopBounds (g : Grammar) : Parser (Option NodeId × NodeId) := do
  let bound ← g .sum
  if ← eatKeyword .toWord then return (some bound, ← g .sum)
  else return (none, bound)

def loopStep (g : Grammar) : Parser (Option NodeId) := do
  if ← eatKeyword .step then return some (← g .sum)
  else return none

def loopCounter : Parser (Option Name) := do
  if ← eat (.assign none false) then return some (← identifier .expectedIdentifier)
  else return none

def iterate (g : Grammar) (label : Option Name) (start : Span) : Parser NodeId := do
  let _ ← advance
  let (first, last) ← loopBounds g
  let step ← loopStep g
  let counter ← loopCounter
  let body ← loopBody g label
  node (.iterate label first last step counter body) (← spanFrom start)

def whileLoop (g : Grammar) (label : Option Name) (start : Span) : Parser NodeId := do
  let _ ← advance
  let condition ← g .logical
  let body ← loopBody g label
  node (.whileLoop label condition body) (← spanFrom start)

def labelledLoop (g : Grammar) : Parser NodeId := do
  let start := (← advance).span
  let label ← identifier .expectedLoopIdentifier
  match (← current).kind with
  | .keyword .iterate => iterate g (some label) start
  | .keyword .whileWord => whileLoop g (some label) start
  | _ =>
    let found ← describeCurrent
    fault .unexpectedToken (← currentSpan) [s!"{found} after a loop label"]

/-! ## Functions -/

/-- The default of a parameter, if it has one; `:>` is taken for `::` with a warning. -/
def parameterDefault (g : Grammar) (name : Name) : Parser (Option NodeId) := do
  match (← current).kind with
  | .mark (.assign none false) =>
    let _ ← advance
    return some (← g .ternary)
  | .mark (.assign none true) =>
    let sign := (← advance).span
    warn .funcArgRet sign [← textOf name]
    return some (← g .ternary)
  | _ => return none

def parameter (g : Grammar) : Parser Parameter := do
  let token ← current
  match declaredTypeOf token.kind with
  | none => failFound .expectedType
  | some type =>
    let _ ← advance
    let name ← identifier .expectedIdentifier
    let default ← parameterDefault g name
    return ⟨name, type, default, ← spanFrom token.span⟩

/-- `def [name](parameters) {…}`. Loops around a function do not reach into its body. -/
def function (g : Grammar) : Parser NodeId := do
  let start := (← advance).span
  let name ← functionName
  let opened ← currentSpan
  if ← eat (.opening .paren) then
    let params ← commaList .paren (parameter g)
    let _ ← expectCloser .paren opened none
    let body ← withLoops (fun _ => []) (block g)
    let run ← storeParams params
    node (.define name run body) (← spanFrom start)
  else failExpected "'('"

/-! ## Atoms -/

def literal (expr : Expr) : Parser NodeId := do
  let token ← advance
  node expr token.span

def atom (g : Grammar) : Parser NodeId := do
  let token ← current
  match token.kind with
  | .int n => literal (.int n)
  | .float x => literal (.float x)
  | .str text => literal (.str text)
  | .ident name => literal (.ident name)
  | .mark (.opening .paren) => group g
  | .mark (.opening .square) => listLiteral g
  | .mark .atSign => labelledLoop g
  | .keyword .ifWord => conditional g
  | .keyword .caseWord => caseOf g
  | .keyword .iterate => iterate g none token.span
  | .keyword .whileWord => whileLoop g none token.span
  | .keyword .defWord => function g
  | _ => failFound .expectedExpr

/-! ## Operators behind an expression -/

def argument (g : Grammar) : Parser Argument := do
  let start ← currentSpan
  let name ← argumentName
  let value ← g .ternary
  return ⟨name, value, ← spanFrom start⟩

def call (g : Grammar) (callee : NodeId) : Parser NodeId := do
  let opened := (← advance).span
  let args ← commaList .paren (argument g)
  let closed ← expectCloser .paren opened none
  let run ← storeArgs args
  node (.call callee run) ((← spanOf callee).merge closed)

def indexSpec (g : Grammar) : Parser IndexSpec := do
  let first ← g .ternary
  if ← eatKeyword .toWord then return .range first (← g .ternary)
  else return .single first

def nextSpec (g : Grammar) (before : List IndexSpec) :
    Parser (List IndexSpec ⊕ List IndexSpec) := do
  let spec ← indexSpec g
  skipNewlines
  if ← eat .comma then
    skipNewlines
    return .inl (spec :: before)
  else return .inr (spec :: before).reverse

def index (g : Grammar) (target : NodeId) : Parser NodeId := do
  let opened := (← advance).span
  skipNewlines
  if ← eat (.closing .square) then return target
  else
    let specs ← repeating (nextSpec g) []
    let closed ← expectCloser .square opened none
    let run ← storeSpecs specs
    node (.index target run) ((← spanOf target).merge closed)

def member (target : NodeId) : Parser NodeId := do
  let _ ← advance
  let name ← identifier .expectedAttribute
  node (.member target name) (← spanFrom (← spanOf target))

def cast (operand : NodeId) : Parser NodeId := do
  let _ ← advance
  match valueTypeOf (← current).kind with
  | none => failFound .expectedType
  | some type =>
    let _ ← advance
    node (.cast operand type) (← spanFrom (← spanOf operand))

def nextPostfix (g : Grammar) (target : NodeId) : Parser (NodeId ⊕ NodeId) := do
  match (← current).kind with
  | .mark (.opening .paren) => .inl <$> call g target
  | .mark (.opening .square) => .inl <$> index g target
  | .mark .dot => .inl <$> member target
  | .keyword .asWord => .inl <$> cast target
  | _ => return .inr target

def suffixed (g : Grammar) : Parser NodeId := do
  let target ← atom g
  repeating (nextPostfix g) target

/-! ## Operators, bindings and the precedence of both -/

def nextOperand (operand : Parser NodeId) (operator? : TokenKind → Option BinaryOp)
    (left : NodeId) : Parser (NodeId ⊕ NodeId) := do
  match operator? (← current).kind with
  | some op =>
    let _ ← advance
    let right ← operand
    .inl <$> binary op left right
  | none => return .inr left

def chain (operand : Parser NodeId) (operator? : TokenKind → Option BinaryOp) :
    Parser NodeId := do
  let left ← operand
  repeating (nextOperand operand operator?) left

/-- `base ** exponent`, where the exponent may have a sign and a power of its own. -/
def power (g : Grammar) : Parser NodeId := do
  let base ← suffixed g
  if ← eat (.arith .pow) then
    let exponent ← g .factor
    binary (.arith .pow) base exponent
  else return base

def factor (g : Grammar) : Parser NodeId := do
  match signOp? (← current).kind with
  | some op =>
    let start := (← advance).span
    let operand ← g .factor
    node (.unary op operand) (← spanFrom start)
  | none => power g

def product (g : Grammar) : Parser NodeId := chain (factor g) productOp?

def sum (g : Grammar) : Parser NodeId := chain (product g) sumOp?

def comparison (g : Grammar) : Parser NodeId := chain (sum g) comparisonOp?

def negation (g : Grammar) : Parser NodeId := do
  if ← checkKeyword .not then
    let start := (← advance).span
    let operand ← g .negation
    node (.unary .not operand) (← spanFrom start)
  else comparison g

def logical (g : Grammar) : Parser NodeId := chain (negation g) logicalOp?

def positiveBranch (g : Grammar) (condition : NodeId) : Parser (Option NodeId) := do
  if ← check .colon then
    if ← isBoolCast condition then return none
    else failFound .expectedExpr
  else return some (← g .ternary)

def negativeBranch (g : Grammar) (positive : Option NodeId) : Parser (Option NodeId) := do
  if ← eat .colon then
    if positive.isSome && (← atBoundary) then return none
    else return some (← g .ternary)
  else if ← atBoundary then return none
  else failExpected "':'"

def ternary (g : Grammar) : Parser NodeId := do
  let condition ← logical g
  if ← eat .question then
    let positive ← positiveBranch g condition
    let negative ← negativeBranch g positive
    node (.ternary condition positive negative) (← spanFrom (← spanOf condition))
  else return condition

def initializer (g : Grammar) (type : DeclaredType) : Parser (Option NodeId × Bool) := do
  match (← current).kind with
  | .mark (.assign none yields) =>
    let _ ← advance
    return (some (← g .expr), yields)
  | .mark (.assign (some _) _) => failFound .expectedAssignmentOperator
  | _ => if type = .auto then failFound .expectedExpr else return (none, false)

def declaration (g : Grammar) (type : DeclaredType) : Parser NodeId := do
  let start := (← advance).span
  let name ← identifier .expectedIdentifier
  let (value, yields) ← initializer g type
  node (.declare type name value yields) (← spanFrom start)

def assignment (g : Grammar) (name : Name) (op : AssignOp) (yields : Bool) : Parser NodeId := do
  let start := (← advance).span
  let _ ← advance
  let value ← g .expr
  node (.assign name op value yields) (← spanFrom start)

def expr (g : Grammar) : Parser NodeId := do
  match (← current).kind, ← peek with
  | .keyword k, _ =>
    match k.declaredType? with
    | some type => declaration g type
    | none => ternary g
  | .ident name, .mark (.assign op yields) => assignment g name op yields
  | _, _ => ternary g

def production (g : Grammar) : Place → Parser NodeId
  | .expr => expr g
  | .ternary => ternary g
  | .logical => logical g
  | .negation => negation g
  | .sum => sum g
  | .factor => factor g

/-! ## Programs -/

/-- The grammar with its nesting resolved for a number of levels. Each level takes a token, so the
number of tokens is enough. -/
def grammar : Nat → Grammar
  | 0, _ => fail .exhausted
  | level + 1, place => fun c s => atLevel level fun _ => production (grammar level) place c s

/-- The statements of a program, and what is wrong with the token behind them. -/
def programBody (g : Grammar) : Parser (List NodeId × Option Diagnostic) := do
  let body ← statements g
  if ← isAtEnd then return (body.nodes, none)
  else return (body.nodes, some (← strayToken body.stopped))

end Parser

def measuredParse (tokens : List Token) (names : Interner) : Except ParseBreakdown ParseResult :=
  let context : ParseContext := ⟨names, [], tokens.length⟩
  let start := (tokens.headD Parser.eofToken).span
  let g := Parser.grammar (levelsFor (tokens.length + 1))
  match Parser.programBody g context ⟨tokens, none, Arena.empty, #[]⟩ with
  | .done _ (nodes, error) s => finishParse context start nodes error s
  | .failed _ (.fault d) s => finishParse context start [] (some d) s
  | .failed _ (.tooLong count) _ => .error (.listTooLong count)
  | .failed _ .exhausted _ => .error .exhausted

end ExprScript
