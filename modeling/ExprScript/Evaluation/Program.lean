import ExprScript.Machine
import ExprScript.Token.Lexer

/-!
# Programs

Reading a source gives a script, and running a script means running the statements of its root in
the outermost scope, wherever the run was asked for.
-/
namespace ExprScript

namespace Eval

/-! ## Reading -/

/-- The tokens of a source from a position on. Its pragmas switch warnings on and off, the last one
for good; the warnings of the lexer itself come before that. -/
def readTokens (file : SourceFile) (start : Position) : Eval (List Token) := fun m =>
  let result := lexFrom file start m.names
  let m := { m with names := result.names }.noteAll file result.warnings
  match result.outcome with
  | .error d => .error (.fatal (d.withSource file)) m
  | .ok lexed =>
    .ok lexed.tokens { m with logging := lexed.pragmas.foldl (fun _ p => p = .log) m.logging }

def readScript (file : SourceFile) (tokens : List Token) : Eval Script := fun m =>
  match parse tokens m.names with
  | .error why => .error (.givenUp (.unparsed why)) m
  | .ok parsed =>
    let m := m.noteAll file parsed.warnings
    match parsed.error with
    | some d => .error (.fatal (d.withSource file)) m
    | none => .ok ⟨file, parsed.arena, parsed.root⟩ m

def readWhole (file : SourceFile) : Eval Script := do
  readScript file (← readTokens file Position.start)

/-! ## Running -/

/-- Runs statements one after another; the value is that of the last. -/
def runStatements (ev : NodeId → Eval Value) (statements : List NodeId) : Eval Value :=
  statements.foldlM (fun _ statement => ev statement) .null

/-- Runs the statements of a block in the current scope. -/
def runInPlace (ev : NodeId → Eval Value) (body : NodeId) : Eval Value := do
  match (← node body).expr with
  | .block statements => runStatements ev (← entries statements Arena.lists)
  | _ => ev body

/-- Faults point into the running script unless they point elsewhere already. -/
@[inline] def sourced {α : Type} (p : Eval α) : Eval α :=
  completeFault (fun here d => d.withSource here.script.source) p

/-- A `break` or `continue` that no loop has stopped ends the run. -/
@[inline] def stoppedAtTop (p : Eval Value) : Eval Value := fun m =>
  match p m with
  | .error (.broke _) m => .ok .null m
  | .error (.continued _) m => .ok .null m
  | result => result

/-- A run of a script's code: in the outermost scope and outside of all functions. -/
@[inline] def inProgram (script : Script) (p : Eval Value) : Eval Value :=
  elsewhere (fun here => { here with scope := .root, script, functions := 0 })
    (fun before here =>
      { here with scope := before.scope, script := before.script, functions := before.functions })
    (stoppedAtTop (sourced p))

def runProgram (ev : NodeId → Eval Value) (script : Script) : Eval Value :=
  inProgram script (runInPlace ev script.root)

end Eval
end ExprScript
