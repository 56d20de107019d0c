import ExprScript.Evaluation.Builtins

/-!
# Calls

A call evaluates what is called, then the arguments, and matches the arguments with the parameters;
faults up to there belong to the caller. Then the call is in progress, and the body runs in a new
scope inside the one where the function was defined.
-/
namespace ExprScript.Eval

def evalArguments (ev : NodeId → Eval Value) (args : List Argument) : Eval (List Given) :=
  args.mapM fun arg => do
    let name ← arg.name.mapM text
    return ⟨name, ← ev arg.value, arg.span⟩

/-! ## Functions of the program -/

/-- The value of a default in the type of its parameter. -/
def defaultValue (ev : NodeId → Eval Value) (type : DeclaredType) (default : NodeId) :
    Eval Value := do
  let value ← ev default
  match type with
  | .auto => return value
  | .typed type => ofExcept (value.castTo type (← spanOf default))

/-- What a parameter starts with: the value that the call has for it, or its default. -/
def parameterValue (ev : NodeId → Eval Value) (param : Parameter) : Option Value → Eval Value
  | some value => return value
  | none =>
    match param.default with
    | some default => defaultValue ev param.type default
    | none => return .null

/-- Gives the parameters their values. A default is evaluated here, next to the parameters before
its own. -/
def bindParameters (ev : NodeId → Eval Value) : List (Parameter × Option Value) → Eval Unit
  | [] => return
  | (param, given) :: rest => do
    let value ← parameterValue ev param given
    declare param.name ⟨value, param.type⟩
    bindParameters ev rest

/-- A `return` ends the run with its value. -/
@[inline] def returning (p : Eval Value) : Eval Value := fun m =>
  match p m with
  | .error (.returned value) m => .ok value m
  | result => result

/-- A run of a function's code: in its script and in a new scope of its own. -/
@[inline] def inFunction (f : Function) (p : Eval Value) : Eval Value :=
  elsewhere (fun here => { here with script := f.script, functions := here.functions + 1 })
    (fun before here => { here with script := before.script, functions := here.functions - 1 })
    (returning (sourced (inChildOf f.closure p)))

def runFunction (ev : NodeId → Eval Value) (f : Function) (values : List (Option Value)) :
    Eval Value :=
  inFunction f (do
    bindParameters ev (f.params.zip values)
    ev f.body)

def callFunction (run : Task → Eval Value) (f : Function) (given : List Given) (span : Span) :
    Eval Value := do
  let formals ← f.params.mapM fun param => do
    return (⟨← text param.name, param.type, param.default.isSome⟩ : Formal)
  let values ← checked (Arguments.values f.display formals given span)
  duringCall ⟨f.display, span⟩ (run (.body f values))

/-! ## Built-in functions -/

def callBuiltin (run : Task → Eval Value) (action : Action) (given : List Given) (span : Span) :
    Eval Value := do
  let params := action.params
  let values ← checked (Arguments.values action.name (params.map (·.formal)) given span)
  let values := (params.zip values).map fun (param, value) => value.getD param.fallback
  duringCall ⟨action.name, span⟩ (run (.native action (values.headD .null) span))

/-! ## Any call -/

def evalCall (run : Task → Eval Value) (callee : NodeId) (args : Run Argument) (span : Span) :
    Eval Value := do
  let ev := fun id => run (.node id)
  let calleeSpan ← spanOf callee
  match ← ev callee with
  | .function f => do
    let given ← evalArguments ev (← entries args Arena.args)
    callFunction run f given span
  | .builtin b => do
    let given ← evalArguments ev (← entries args Arena.args)
    callBuiltin run b.action given span
  | other => fault (Fault.notCallable calleeSpan other)

end ExprScript.Eval
