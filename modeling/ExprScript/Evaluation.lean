import ExprScript.Evaluation.Calls
import ExprScript.Evaluation.Loops
import ExprScript.Evaluation.Selection
import ExprScript.Value.Operators

/-!
# Evaluating expressions

Every construct is an expression and has a value. `evalExpr` says what one construct does and
`runTask` what one task does, given how the tasks inside are done; `eval` ties the knot for a number
of levels of nesting.
-/
namespace ExprScript.Eval

/-! ## Names -/

def evalIdent (name : Name) (span : Span) : Eval Value := do
  match ← entry? name with
  | some entry => return entry.value
  | none => fault (Fault.unknownIdentifier span (← text name))

/-- A declaration without a value starts with the zero of its type. -/
def initialValue (ev : NodeId → Eval Value) (type : DeclaredType) :
    Option NodeId → Eval Value
  | some value => ev value
  | none =>
    match type with
    | .typed type => return type.zero
    | .auto => return .null

def evalDeclare (ev : NodeId → Eval Value) (type : DeclaredType) (name : Name)
    (value : Option NodeId) (yields : Bool) (span : Span) : Eval Value := do
  let value ← initialValue ev type value
  let value ← checked (value.coerce type (← text name) span)
  declare name ⟨value, type⟩
  return if yields then value else .null

/-- Stores a value in the type that the name was declared with. -/
def storeConverted (name : Name) (value : Value) (span : Span) : Eval Value := do
  let value ← checked (value.coerce (← declaredType name) (← text name) span)
  store name value span

/-- What assigning a value does: a variable takes it in its own type, combined with its old value if
the operator says so, and a constant keeps its value. -/
def assign (name : Name) (op : AssignOp) (value : Operand) (span : Span) : Eval Value := do
  match ← entry? name with
  | none => fault (Fault.unknownIdentifier span (← text name))
  | some (.constant old) => return old
  | some (.variable old) =>
    let updated ←
      match op with
      | some op => checked (Operate.binary (.arith op) ⟨old.value, span⟩ value)
      | none => pure value.value
    storeConverted name updated span

/-! ## Operators -/

/-- The right side of `and` and `or` is evaluated only if it matters. -/
def evalBinary (ev : NodeId → Eval Value) (op : BinaryOp) (left right : NodeId) : Eval Value := do
  let leftSpan ← spanOf left
  let rightSpan ← spanOf right
  let a ← ev left
  match op, a.isTrue with
  | .and, false => return .bool false
  | .or, true => return .bool true
  | .and, true | .or, false => return .bool (← ev right).isTrue
  | op, _ =>
    let b ← ev right
    checked (Operate.binary op ⟨a, leftSpan⟩ ⟨b, rightSpan⟩)

/-! ## Branches -/

def evalOr (p : NodeId → Eval Value) (expr : Option NodeId) (otherwise : Value) : Eval Value :=
  match expr with
  | some expr => p expr
  | none => return otherwise

/-- Runs the body of the first branch whose condition holds. -/
def evalBranches (ev : NodeId → Eval Value) (otherwise : Option NodeId) : List Branch → Eval Value
  | [] => evalOr (runInPlace ev) otherwise .null
  | branch :: branches => do
    if (← ev branch.condition).isTrue then runInPlace ev branch.body
    else evalBranches ev otherwise branches

/-- Runs the body of the first arm whose pattern equals the subject. -/
def evalArms (ev : NodeId → Eval Value) (subject : Value) (otherwise : Option NodeId) :
    List CaseArm → Eval Value
  | [] => evalOr (runInPlace ev) otherwise .null
  | arm :: arms => do
    if subject.equals (← ev arm.pattern) then runInPlace ev arm.body
    else evalArms ev subject otherwise arms

/-- Whether a guard holds, or there is none. -/
def guardHolds (ev : NodeId → Eval Value) : Option NodeId → Eval Bool
  | none => return true
  | some guard => do return (← ev guard).isTrue

/-! ## Functions -/

/-- A new function, which remembers the current scope. A name makes it a variable there. -/
def define (name : Option Name) (params : Run Parameter) (body : NodeId) : Eval Value := do
  let params ← entries params Arena.params
  let display ← name.mapM text
  let id ← freshId
  let here ← here
  let f : Function :=
    { id, name, display := display.getD "<anonymous>", params, body,
      script := here.script, closure := here.scope }
  match name with
  | some name => declare name ⟨.function f, .auto⟩
  | none => pure ()
  return .function f

/-- A return is a fault outside of functions, found before its value is evaluated. -/
def evalReturn (ev : NodeId → Eval Value) (value guard : Option NodeId) (span : Span) :
    Eval Value := do
  if ← guardHolds ev guard then
    if ← outsideFunctions then fault (Fault.returnOutsideFunction span)
    else throw (.returned (← evalOr ev value .null))
  else return .null

/-! ## Every construct -/

/-- The value of one construct. Its loops run at most so many rounds. -/
def evalExpr (run : Task → Eval Value) (rounds : Nat) (span : Span) (expr : Expr) : Eval Value :=
  let ev := fun id => run (.node id)
  match expr with
  | .int n => return .int n
  | .float x => return .float x
  | .str name => return .str (← text name)
  | .ident name => evalIdent name span
  | .list items => do return .list (← (← entries items Arena.lists).mapM ev)
  | .block statements => inNewScope do runStatements ev (← entries statements Arena.lists)
  | .index target specs => evalIndex ev target specs
  | .member target name => evalMember ev target name span
  | .cast operand type => do ofExcept ((← ev operand).castTo type span)
  | .binary op left right => evalBinary ev op left right
  | .unary op operand => do ofExcept (Operate.unary op ⟨← ev operand, span⟩)
  | .ternary condition positive negative => do
    let condition ← ev condition
    if condition.isTrue then evalOr ev positive condition else evalOr ev negative .null
  | .declare type name value yields => evalDeclare ev type name value yields span
  | .assign name op value yields => do
    let new ← ev value
    let assigned ← assign name op ⟨new, ← spanOf value⟩ span
    return if yields then assigned else .null
  | .ifElse branches otherwise => do
    evalBranches ev otherwise (← entries branches Arena.branches)
  | .caseOf subject arms otherwise => do
    evalArms ev (← ev subject) otherwise (← entries arms Arena.arms)
  | .iterate label first last step counter body =>
    evalIterate ev rounds { label, first, last, step, counter, body } span
  | .whileLoop label condition body => whileLoop label (ev condition) (ev body) rounds
  | .define name params body => define name params body
  | .call callee args => evalCall run callee args span
  | .returnValue value guard => evalReturn ev value guard span
  | .breakLoop label guard => do
    if ← guardHolds ev guard then throw (.broke label) else return .null
  | .continueLoop label guard => do
    if ← guardHolds ev guard then throw (.continued label) else return .null

/-- Does one task, given how the tasks inside it are done. -/
def runTask (run : Task → Eval Value) (rounds : Nat) : Task → Eval Value
  | .node id => do
    let node ← node id
    evalExpr run rounds node.span node.expr
  | .body f values => runFunction (fun id => run (.node id)) f values
  | .native action value span => perform run value span action
  | .program script => runProgram (fun id => run (.node id)) script

/-- Does a task, down to so many levels of nesting. -/
def eval : Nat → Task → Eval Value
  | 0, _ => giveUp .outOfLevels
  | level + 1, task => fun m => atLevel level fun _ => runTask (eval level) level task m

end ExprScript.Eval
