import ExprScript.Evaluation.Arguments
import ExprScript.Evaluation.Program

/-!
# Built-in functions

Arguments arrive in the types of their parameters, and a parameter that was left out has its own
value instead.
-/
namespace ExprScript

/-- A parameter of a built-in function, and its value where the call gives none. -/
structure BuiltinParam where
  formal : Formal
  fallback : Value := .null

namespace Action

def params : Action → List BuiltinParam
  | .print | .log => [⟨⟨"value", .auto, true⟩, .null⟩]
  | .input => [⟨⟨"prompt", .typed .str, true⟩, .str ""⟩]
  | .clear | .idle _ => []
  | .type | .len => [⟨⟨"value", .auto, false⟩, .null⟩]
  | .run => [⟨⟨"path", .typed .str, false⟩, .null⟩]
  | .quit => [⟨⟨"code", .typed .int, true⟩, .int 0⟩]

/-- Those that every session has unless it is set up without. -/
def standard : List Action := [.print, .log, .input, .clear, .type, .len, .run]

end Action

/-- Whether the system takes a number as the status of a program. -/
def isExitStatus (n : Int) : Bool := -0x80000000 ≤ n ∧ n < 0x80000000

namespace Eval

def onConsole (f : Console → Console) : Eval Unit :=
  modify fun m => { m with console := f m.console }

def readLine : Eval String := fun m =>
  match m.host.takeLine with
  | .ok (line, host) => .ok (line.getD "") { m with host }
  | .error need => .error (.givenUp (.needs need)) m

def readFile (path : String) (span : Span) : Eval String := fun m =>
  match m.host.readFile path with
  | .ok (.ok content) => .ok content m
  | .ok (.error cause) =>
    .error (.fatal (Fault.illegalArgumentValue span "path" "run"
      s!"cannot read '{path}': {cause.message}")) m
  | .error need => .error (.givenUp (.needs need)) m

def loadScript (path : String) (span : Span) : Eval Script := do
  readWhole ⟨path, ← readFile path span⟩

def perform (run : Task → Eval Value) (value : Value) (span : Span) : Action → Eval Value
  | .print => do
    onConsole fun console => if value matches .null then console else console.printLine value.printed
    return .null
  | .log => do
    onConsole fun console => console.printLine value.display
    return .null
  | .input => do
    onConsole fun console => console.print value.printed
    return .str (← readLine)
  | .clear => do
    onConsole Console.clear
    return .null
  | .type => return .str value.typeName
  | .len =>
    match value.length? with
    | some n => return .int (Int64.ofNat n)
    | none => fault (Fault.illegalValueType span value "with 'len'")
  | .run => do run (.program (← loadScript value.printed span))
  | .quit =>
    match value with
    | .int code =>
      if isExitStatus code.toInt then throw (.exited code.toInt)
      else
        fault (Fault.illegalArgumentValue span "code" "quit"
          s!"{(Number.int code).display} is not an exit status")
    | _ => throw (.exited 0)
  | .idle _ => return .null

end Eval
end ExprScript
