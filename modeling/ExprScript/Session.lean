import ExprScript.Diagnostic.Terminal
import ExprScript.Evaluation

/-!
# Sessions

A session keeps one machine alive across inputs, so that what one input declares the next can use.
An input whose brackets are still open may wait for more text; nothing of it is evaluated before
then.
-/
namespace ExprScript

structure SessionConfig where
  /-- The name of input that comes from no file. -/
  sourceName : String := "<stdin>"
  console : ConsoleKind := .terminal
  palette : Palette := plainPalette
  /-- Whether warnings are shown at first. -/
  logging : Bool := true
  maxCalls : Option Nat := some 10000
  builtins : List Action := Action.standard

/-- The tokens of an input that waits for closing brackets, and the text they come from. -/
structure PendingInput where
  tokens : List Token
  text : String

inductive RunOutcome where
  | finished (value : Value)
  | failed (d : Diagnostic)
  /-- Brackets are open, and the next input may close them. -/
  | waiting (pending : PendingInput)
  | exited (status : Int)
  | givenUp (why : GivenUp)

/-- The outcome of a run that was interrupted; a signal that nobody was waiting for counts as a
run without a value. -/
def RunOutcome.ofInterrupt : Interrupt → RunOutcome
  | .fatal d => .failed d
  | .exited status => .exited status
  | .givenUp why => .givenUp why
  | .returned _ | .broke _ | .continued _ => .finished .null

structure Session where
  machine : Machine
  sourceName : String
  palette : Palette

/-! ## Setting up -/

namespace Machine

def defineConstant (m : Machine) (name : String) (value : Value) : Machine :=
  let (name, names) := m.names.intern name
  { m with names, scopes := m.scopes.setConstant .root name value }

def defineBuiltin (m : Machine) (action : Action) : Machine :=
  { m with nextId := m.nextId + 1 }.defineConstant action.name (.builtin ⟨m.nextId, action⟩)

def idle (config : SessionConfig) (host : Host) : Machine where
  context :=
    { scope := .root
      script := ⟨⟨programName, ""⟩, Arena.empty, ⟨0⟩⟩
      functions := 0
      calls := CallStack.empty config.maxCalls }
  scopes := .initial
  names := .empty
  console := { kind := config.console }
  host
  logging := config.logging
  notices := #[]
  nextId := 0

/-- A machine with the constants of the language and the built-in functions. -/
def initial (config : SessionConfig) (host : Host) : Machine :=
  let m := idle config host
  let m := m.defineConstant "true" (.bool true)
  let m := m.defineConstant "false" (.bool false)
  let m := m.defineConstant "null" .null
  config.builtins.foldl defineBuiltin m

end Machine

/-- Levels of nesting for any run of a script: more than memory has room for, and more than the
script has nodes. -/
@[irreducible] def maxLevels (script : Script) : Nat :=
  levelsFor 0x10000000000 + levelsPerStack * script.arena.size

namespace Session

def new (config : SessionConfig) (host : Host) : Session :=
  ⟨Machine.initial config host, config.sourceName, config.palette⟩

/-! ## Running -/

/-- The source of an input and the place where its new text starts. Text that continues an earlier
input follows it behind a line feed, which ends the statement before. -/
def inputSource (name text : String) : Option PendingInput → SourceFile × Position
  | none => (⟨name, text⟩, Position.start)
  | some pending =>
    let file : SourceFile := ⟨name, pending.text ++ "\n" ++ text⟩
    (file, file.positionAt pending.text.utf8ByteSize)

/-- Reads an input. The result is its script, unless the input waits for more. -/
def readInput (name text : String) (pending : Option PendingInput) (mayWait : Bool) :
    Eval (PendingInput ⊕ Script) := do
  let (file, start) := inputSource name text pending
  let earlier := (pending.map (·.tokens)).getD []
  let tokens := earlier ++ (← Eval.readTokens file start)
  if mayWait && 0 < bracketDepth tokens then
    return .inl ⟨withoutEof tokens, file.text⟩
  else return .inr (← Eval.readScript file tokens)

/-- Reads an input and, unless it waits for more, runs it. -/
def evalInput (name text : String) (pending : Option PendingInput) (mayWait : Bool) :
    Eval RunOutcome := do
  match ← readInput name text pending mayWait with
  | .inl pending => return .waiting pending
  | .inr script => return .finished (← Eval.eval (maxLevels script) (.program script))

def runInput (session : Session) (name text : String) (pending : Option PendingInput)
    (mayWait : Bool) : RunOutcome × Session :=
  let ⟨machine, sourceName, palette⟩ := session
  match evalInput name text pending mayWait machine with
  | .ok outcome machine => (outcome, ⟨machine, sourceName, palette⟩)
  | .error e machine => (RunOutcome.ofInterrupt e, ⟨machine, sourceName, palette⟩)

/-- Runs an input, which may continue an earlier one and may itself be unfinished. -/
def run (session : Session) (name text : String) (pending : Option PendingInput := none) :
    RunOutcome × Session :=
  session.runInput name text pending true

/-- Runs an input that must be complete, such as a file. -/
def runComplete (session : Session) (name text : String) : RunOutcome × Session :=
  session.runInput name text none false

/-! ## What a session shows -/

/-- The value of a name in the outermost scope. -/
def lookup (session : Session) (name : String) : Option Value :=
  let m := session.machine
  (m.scopes.entry? m.context.scope (m.names.intern name).1).map (·.value)

def output (session : Session) : String := session.machine.console.text

def takeNotices (session : Session) : List Diagnostic × Session :=
  (session.machine.notices.toList,
    { session with machine := { session.machine with notices := #[] } })

/-- Prints something on behalf of the session itself. -/
def print (session : Session) (text : String) : Session :=
  let m := session.machine
  { session with machine := { m with console := m.console.print text } }

/-- Reports a fault, also where warnings are off. -/
def report (session : Session) (d : Diagnostic) : Session :=
  let m := session.machine
  { session with machine := { m with notices := m.notices.push d } }

/-- Prints a value in its display form, unless it is null. -/
def echo (session : Session) (value : Value) : Session :=
  match value with
  | .null => session
  | value => session.print (value.display ++ "\n")

def render (session : Session) (d : Diagnostic) : String := d.render session.palette

end Session
end ExprScript
