import ExprScript.CommandLine.Arguments
import ExprScript.CommandLine.Listing
import ExprScript.Diagnostic.Explain
import ExprScript.Repl

/-!
# The command line program

What the program writes and its status, as a function of its arguments and of what surrounds it.
Diagnostics go to the error stream, everything else to the output.
-/
namespace ExprScript

inductive RunEnd where
  | status (code : Int)
  /-- The run asks for something that is not known; made again with that known, it goes on. -/
  | needs (need : Need)
  /-- The run breaks down without a status. -/
  | broken (message : String)

structure Report where
  output : String
  errors : String
  ending : RunEnd

/-- The system keeps one byte of a status. -/
def systemStatus (code : Int) : Nat := (code % 256).toNat

namespace CommandLine

def versionNumber : String := "0.3.0"

def versionLine : String := s!"fck {versionNumber}"

def usage : String := versionLine ++ "

Usage: fck [options] [file]

With no file, starts an interactive session.

Options:
  -f <file>           Run a script file
  -c <code>           Run the given code
  -e, -w, --explain <code>
                      Explain an error or warning code (e.g. E022, w001)
  --tokens <file>     Print the token stream of a file
  --ast <file>        Print a summary of the parsed file
  --no-color          Never color diagnostics
  -q, --quiet         Do not show warnings
  -h, --help          Show this help
  -V, --version       Show version information

Environment:
  FCK_LOG             Tracing filter, e.g. 'fck_eval=debug' (falls back to RUST_LOG)
  FCK_LOG_TREE=1      Show tracing output as an indented tree"

/-! ## Statuses -/

def successStatus : Int := 0

/-- A diagnostic ended the run. -/
def failureStatus : Int := 1

/-- The arguments were wrong, or a file could not be read. -/
def usageStatus : Int := 2

/-! ## Reports -/

def said (text : String) : Report := ⟨text ++ "\n", "", .status successStatus⟩

/-- A report of a failure outside of all programs. -/
def refused (message : String) : Report :=
  ⟨"", s!"error: {message}\n", .status usageStatus⟩

/-- Everything that a session printed, and its notices as a terminal shows them. -/
def reportOf (session : Session) (ending : RunEnd) : Report :=
  let errors := session.machine.notices.foldl (fun out d => out ++ session.render d) ""
  ⟨session.output, errors, ending⟩

def endOf : GivenUp → RunEnd
  | .needs need => .needs need
  | .unparsed why => .broken why.message
  | .outsideArena => .broken "a script refers to nodes that it does not have"
  | .outOfLevels => .broken "nesting exhausted"

/-! ## Commands -/

/-- The colors of diagnostics: none unless they are shown on a terminal and nobody objects. -/
def paletteOf (args : Arguments) (terminal : Bool) : Palette :=
  if terminal && !args.noColor then ansiPalette else plainPalette

/-- A session of the command line: also programs may end it. -/
def newSession (args : Arguments) (sourceName : String) (host : Host) (terminal : Bool) :
    Session :=
  .new
    { sourceName
      palette := paletteOf args terminal
      logging := !args.quiet
      builtins := Action.standard ++ [.quit] }
    host

/-- Runs a complete input and reports on it, with the value if it is asked for. -/
def runInput (session : Session) (name text : String) (echo : Bool) : Report :=
  match session.runComplete name text with
  | (.exited status, session) => reportOf session (.status status)
  | (.failed d, session) => reportOf (session.report d) (.status failureStatus)
  | (.finished value, session) =>
    reportOf (if echo then session.echo value else session) (.status successStatus)
  | (.waiting _, session) => reportOf session (.status successStatus)
  | (.givenUp why, session) => reportOf session (endOf why)

def runRepl (session : Session) : Report :=
  match ({ session, target := .console } : Repl).run with
  | .again repl => reportOf repl.session (.status successStatus)
  | .ended status repl => reportOf repl.session (.status status)
  | .givenUp why repl => reportOf repl.session (endOf why)

/-- Prints a listing, or reports the fault that stands in its way. -/
def showListing (session : Session) : Except Diagnostic String → Report
  | .ok text => reportOf (session.print text) (.status successStatus)
  | .error d => reportOf (session.report d) (.status failureStatus)

def withFile (host : Host) (path : String) (use : String → Report) : Report :=
  match host.readFile path with
  | .ok (.ok text) => use text
  | .ok (.error cause) => refused s!"cannot read '{path}': {cause.message}"
  | .error need => ⟨"", "", .needs need⟩

def execute (args : Arguments) (host : Host) (terminal : Bool) : Report :=
  let session := newSession args "<stdin>" host terminal
  match args.command with
  | .help => said usage
  | .version => said versionLine
  | .explain code =>
    match explain code with
    | .ok page => said page
    | .error e => refused e.message
  | .runFile path => withFile host path fun text => runInput session path text false
  | .runCode code =>
    runInput (newSession args "<string>" host terminal) "<string>" code true
  | .tokens path => withFile host path fun text =>
      showListing session (listTokens ⟨path, text⟩ session.machine.names)
  | .tree path => withFile host path fun text =>
      match summarizeTree ⟨path, text⟩ session.machine.names with
      | .ok listing => showListing session listing
      | .error why => reportOf session (.broken why.message)
  | .repl => runRepl session

/-- Runs the program with the arguments behind its name. Diagnostics are shown on a terminal or
not. -/
def run (args : List String) (host : Host) (terminal : Bool) : Report :=
  match Arguments.read args with
  | .ok args => execute args host terminal
  | .error e =>
    let report := refused e.message
    { report with errors := report.errors ++ "Run 'fck --help' for usage.\n" }

end CommandLine
end ExprScript
