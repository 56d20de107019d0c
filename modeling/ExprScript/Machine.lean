import ExprScript.CallStack
import ExprScript.Host
import ExprScript.Host.Console
import ExprScript.Parser.Program
import ExprScript.Scope

/-!
# The evaluating machine

The state of evaluation, the ways in which evaluating can end, and the steps that everything else is
made of. What a construct enters, a scope, a script or a call, is part of one record, and
`elsewhere` is the only step that changes it and takes the change back.
-/
namespace ExprScript

structure Context where
  /-- The innermost scope. -/
  scope : ScopeId
  /-- The script whose code is running. -/
  script : Script
  /-- How many functions of the running program are in progress. -/
  functions : Nat
  calls : CallStack

structure Machine where
  context : Context
  scopes : Scopes
  names : Interner
  console : Console
  host : Host
  /-- Whether warnings are shown. -/
  logging : Bool
  /-- The warnings shown so far, and the faults that were reported among them. -/
  notices : Array Diagnostic
  /-- The number of the next function. -/
  nextId : Nat

/-- Why a run is given up; programs know nothing of it. -/
inductive GivenUp where
  | unparsed (why : ParseBreakdown)
  /-- A node or a run of entries is not in the arena of the running script. -/
  | outsideArena
  | outOfLevels
  | needs (need : Need)

inductive Interrupt where
  | fatal (d : Diagnostic)
  | returned (value : Value)
  | broke (label : Option Name)
  | continued (label : Option Name)
  /-- The program asks for the whole session to stop. -/
  | exited (status : Int)
  | givenUp (why : GivenUp)

abbrev Eval := EStateM Interrupt Machine

/-- What evaluation nests: all that runs while something else runs is one of these. -/
inductive Task where
  /-- Evaluates a node of the running script. -/
  | node (id : NodeId)
  /-- Runs a function whose call is in progress, given what the call has for its parameters. -/
  | body (f : Function) (values : List (Option Value))
  /-- Does what a built-in function does, given the value of its only parameter. -/
  | native (action : Action) (value : Value) (span : Span)
  /-- Runs a script from its first statement to its last. -/
  | program (script : Script)

namespace Machine

/-- Shows a warning unless warnings are off. It points into the given source. -/
def note (m : Machine) (file : SourceFile) (d : Diagnostic) : Machine :=
  if m.logging then { m with notices := m.notices.push (d.withSource file) } else m

def noteAll (m : Machine) (file : SourceFile) (ds : List Diagnostic) : Machine :=
  ds.foldl (fun m d => m.note file d) m

end Machine

namespace Eval

variable {α : Type}

/-! ## Faults and warnings -/

def fault (d : Diagnostic) : Eval α := throw (.fatal d)

def giveUp (why : GivenUp) : Eval α := throw (.givenUp why)

def ofExcept : Except Diagnostic α → Eval α
  | .ok a => pure a
  | .error d => fault d

/-- A computation on values, whose warnings point into the running script. -/
def checked (p : Checked α) : Eval α := fun m =>
  match p #[] with
  | .ok a warnings =>
    if warnings.isEmpty then .ok a m
    else .ok a (m.noteAll m.context.script.source warnings.toList)
  | .error d warnings => .error (.fatal d) (m.noteAll m.context.script.source warnings.toList)

def warn (code : Code) (span : Span) (args : List String) : Eval Unit :=
  modify fun m => m.note m.context.script.source ⟨code, span, args, [], none⟩

@[inline] def completeFault (complete : Context → Diagnostic → Diagnostic) (p : Eval α) : Eval α :=
  fun m =>
    match p m with
    | .error (.fatal d) m => .error (.fatal (complete m.context d)) m
    | result => result

/-! ## Being elsewhere -/

/-- A run in another context. Afterwards the context is what `leave` says, which sees the one before
and the one at the end of the run, however that ended. -/
@[inline] def elsewhere (enter : Context → Context) (leave : Context → Context → Context)
    (p : Eval α) : Eval α := fun m =>
  let before := m.context
  match p { m with context := enter before } with
  | .ok a m => .ok a { m with context := leave before m.context }
  | .error e m => .error e { m with context := leave before m.context }

@[inline] def inScope (scope : ScopeId) (p : Eval α) : Eval α :=
  elsewhere (fun here => { here with scope })
    (fun before here => { here with scope := before.scope }) p

@[inline] def inChildOf (parent : ScopeId) (p : Eval α) : Eval α := fun m =>
  let (scope, scopes) := m.scopes.child parent
  inScope scope p { m with scopes }

@[inline] def inNewScope (p : Eval α) : Eval α := fun m => inChildOf m.context.scope p m

/-- A run while a call is in progress. A fault leaves with the calls in progress on it. -/
@[inline] def duringCall (frame : TraceFrame) (p : Eval α) : Eval α := fun m =>
  match m.context.calls.push frame with
  | .error d => .error (.fatal d) m
  | .ok calls =>
    elsewhere (fun here => { here with calls })
      (fun _ here => { here with calls := here.calls.pop })
      (completeFault (fun here d => here.calls.attach d) p) m

/-! ## The running script -/

def node (id : NodeId) : Eval Node := fun m =>
  match m.context.script.arena.node? id with
  | some node => .ok node m
  | none => .error (.givenUp .outsideArena) m

def spanOf (id : NodeId) : Eval Span := do return (← node id).span

def entries (run : Run α) (table : Arena → Array α) : Eval (List α) := fun m =>
  match run.entries? (table m.context.script.arena) with
  | some entries => .ok entries m
  | none => .error (.givenUp .outsideArena) m

def text (name : Name) : Eval String := fun m => .ok (m.names.lookup name) m

def here : Eval Context := fun m => .ok m.context m

/-- Whether the code that runs belongs to no function of its program. -/
def outsideFunctions : Eval Bool := fun m => .ok (m.context.functions = 0) m

/-! ## Names and scopes -/

def entry? (name : Name) : Eval (Option Entry) := fun m =>
  .ok (m.scopes.entry? m.context.scope name) m

def declaredType (name : Name) : Eval DeclaredType := fun m =>
  .ok ((m.scopes.type? m.context.scope name).getD .auto) m

/-- Gives the nearest variable of a name a new value. A constant keeps its own. -/
def store (name : Name) (value : Value) (span : Span) : Eval Value := fun m =>
  match m.scopes.target m.context.scope name with
  | .ok (owner, v) =>
    .ok value { m with scopes := m.scopes.setVariable owner name { v with value } }
  | .error (.constant old) => .ok old m
  | .error .undefined =>
    .error (.fatal (Fault.unknownIdentifier span (m.names.lookup name))) m

def declare (name : Name) (v : Variable) : Eval Unit :=
  modify fun m => { m with scopes := m.scopes.setVariable m.context.scope name v }

/-- A number that no function has yet. -/
def freshId : Eval Nat := modifyGet fun m => (m.nextId, { m with nextId := m.nextId + 1 })

end Eval
end ExprScript
