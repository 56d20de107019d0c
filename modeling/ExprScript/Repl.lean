import ExprScript.Session

/-!
# The prompt loop

Each line of input is run in one session. While brackets are open the loop prompts for more, and
only the whole entry runs. The loop ends with the input or when a program asks for it.
-/
namespace ExprScript

/-- Where prompts are written: among the output of programs or apart from it. -/
inductive PromptTarget where
  | console
  | apart
  deriving DecidableEq

structure Repl where
  session : Session
  target : PromptTarget
  pending : Option PendingInput := none
  /-- The prompts that are kept apart. -/
  prompts : String := ""

inductive ReplRound where
  | again (repl : Repl)
  | ended (status : Int) (repl : Repl)
  | givenUp (why : GivenUp) (repl : Repl)

namespace Repl

def newPrompt : String := ">>> "

def continuationPrompt : String := "... "

def endStatus : Int := 0

def showPrompt (repl : Repl) (text : String) : Repl :=
  match repl.target with
  | .console => { repl with session := repl.session.print text }
  | .apart => { repl with prompts := repl.prompts ++ text }

/-- Runs one line, together with the lines that it continues. -/
def enter (repl : Repl) (line : String) : ReplRound :=
  let (outcome, session) := repl.session.run repl.session.sourceName line repl.pending
  let repl := { repl with session, pending := none }
  match outcome with
  | .waiting pending => .again { repl with pending := some pending }
  | .exited status => .ended status repl
  | .failed d => .again { repl with session := session.report d }
  | .finished value => .again { repl with session := session.echo value }
  | .givenUp why => .givenUp why repl

def round (repl : Repl) : ReplRound :=
  let repl := repl.showPrompt (if repl.pending.isSome then continuationPrompt else newPrompt)
  let session := repl.session
  match session.machine.host.takeLine with
  | .error need => .givenUp (.needs need) repl
  | .ok (none, _) => .ended endStatus (repl.showPrompt "\n")
  | .ok (some line, host) =>
    { repl with session := { session with machine := { session.machine with host } } }.enter line

def runRounds : Nat → Repl → ReplRound
  | 0, repl => .givenUp .outOfLevels repl
  | rounds + 1, repl =>
    match repl.round with
    | .again repl => runRounds rounds repl
    | ended => ended

/-- Runs the loop. Each round takes a line, and the last one finds that there is none. -/
def run (repl : Repl) : ReplRound :=
  repl.runRounds (repl.session.machine.host.lines.length + 1)

end Repl
end ExprScript
