/-!
# Command line arguments

The arguments name what to do, once, and may set options. Asking for help or for the version comes
before anything else, but only for arguments that can be read so far.
-/
namespace ExprScript

inductive Command where
  | repl
  | runFile (path : String)
  | runCode (code : String)
  | explain (code : String)
  | tokens (path : String)
  | tree (path : String)
  | help
  | version
  deriving DecidableEq

def Command.isInfo : Command → Bool
  | .help | .version => true
  | _ => false

structure Arguments where
  command : Command := .repl
  /-- Diagnostics are never colored. -/
  noColor : Bool := false
  /-- Warnings are not shown. -/
  quiet : Bool := false

inductive UsageError where
  | unknownOption (option : String)
  | missingValue (option what : String)
  | severalCommands
  deriving DecidableEq

def UsageError.message : UsageError → String
  | .unknownOption option => s!"unknown option '{option}'"
  | .missingValue option what => s!"expected {what} after '{option}'"
  | .severalCommands => "only one of a file, -c, --explain, --tokens or --ast may be given"

inductive ArgumentKind where
  | noColor
  | quiet
  | command (command : Command)
  /-- A command that takes the next argument. -/
  | valued (what : String) (command : String → Command)
  | unknown

/-- An argument where an option may stand. A dash alone is a file. -/
def ArgumentKind.of (arg : String) : ArgumentKind :=
  match arg with
  | "--no-color" => .noColor
  | "--quiet" | "-q" => .quiet
  | "-h" | "--help" => .command .help
  | "-V" | "--version" => .command .version
  | "-f" => .valued "a file path" .runFile
  | "-c" => .valued "code to run" .runCode
  | "--explain" | "-e" | "-w" => .valued "an error or warning code" .explain
  | "--tokens" => .valued "a file path" .tokens
  | "--ast" => .valued "a file path" .tree
  | _ =>
    match arg.toList with
    | '-' :: _ :: _ => .unknown
    | _ => .command (.runFile arg)

namespace Arguments

/-- The command after one more was named: the first of those that only tell about the program, or
else the only one. -/
def combine (before : Option Command) (next : Command) : Except UsageError Command :=
  match before with
  | none => .ok next
  | some command =>
    if command.isInfo then .ok command
    else if next.isInfo then .ok next
    else .error .severalCommands

def readFrom (command : Option Command) (noColor quiet : Bool) :
    List String → Except UsageError Arguments
  | [] => .ok { command := command.getD .repl, noColor, quiet }
  | arg :: rest =>
    match ArgumentKind.of arg, rest with
    | .noColor, rest => readFrom command true quiet rest
    | .quiet, rest => readFrom command noColor true rest
    | .unknown, _ => .error (.unknownOption arg)
    | .command next, rest =>
      match combine command next with
      | .ok command => readFrom (some command) noColor quiet rest
      | .error e => .error e
    | .valued what _, [] => .error (.missingValue arg what)
    | .valued _ make, value :: rest =>
      match combine command (make value) with
      | .ok command => readFrom (some command) noColor quiet rest
      | .error e => .error e

def read (args : List String) : Except UsageError Arguments :=
  readFrom none false false args

end Arguments
end ExprScript
