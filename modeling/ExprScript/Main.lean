import ExprScript.CommandLine

/-!
# Running on a system

The program is a function of what is known of files and input. It is run with nothing known at
first; where it asks for something, that is looked up, and the run is made again. A run with more
known begins like the one before, so only what is new is written out.
-/
namespace ExprScript

/-- What the system has answered so far. -/
structure Known where
  files : List (String × Except FileFault String) := []
  lines : Array String := #[]
  ended : Bool := false

def Known.host (known : Known) : Host :=
  ⟨fun path => known.files.lookup path, known.lines.toList, known.ended⟩

def readSystemFile (path : String) : IO (Except FileFault String) := do
  match ← (IO.FS.readBinFile path).toBaseIO with
  | .ok bytes =>
    match String.fromUTF8? bytes with
    | some text => return .ok text
    | none => return .error (.other "stream did not contain valid UTF-8")
  | .error (.noFileOrDirectory ..) => return .error .notFound
  | .error e => return .error (.other (toString e))

/-- Takes one line from a terminal, but all that there is from anything else. -/
def readSystemLines (known : Known) : IO Known := do
  let input ← IO.getStdin
  let line ← input.getLine
  if line.isEmpty then return { known with ended := true }
  else
    let known := { known with lines := known.lines ++ (inputLines line).toArray }
    if ← input.isTty then return known
    else rest input known
where
  rest (input : IO.FS.Stream) (known : Known) : IO Known := do
    let mut known := known
    repeat
      let line ← input.getLine
      if line.isEmpty then
        known := { known with ended := true }
        break
      else known := { known with lines := known.lines ++ (inputLines line).toArray }
    return known

/-- Writes what comes behind the part that was written already. -/
def writeNew (stream : IO.FS.Stream) (text : String) (written : Nat) : IO Unit := do
  stream.putStr (String.ofList (text.toList.drop written))
  stream.flush

/-- The status of a program that breaks down. -/
def breakdownStatus : UInt32 := 101

/-- Runs the program until nothing is unknown. -/
partial def runKnown (args : List String) (terminal : Bool) (known : Known)
    (output errors : Nat) : IO UInt32 := do
  let report := CommandLine.run args known.host terminal
  writeNew (← IO.getStdout) report.output output
  writeNew (← IO.getStderr) report.errors errors
  let again := fun known =>
    runKnown args terminal known report.output.length report.errors.length
  match report.ending with
  | .status code => return (systemStatus code).toUInt32
  | .needs (.file path) => do
    let answer ← readSystemFile path
    again { known with files := (path, answer) :: known.files }
  | .needs .line => do again (← readSystemLines known)
  | .broken message => do
    (← IO.getStderr).putStrLn message
    return breakdownStatus

end ExprScript

def main (args : List String) : IO UInt32 := do
  let terminal ← (← IO.getStderr).isTty
  ExprScript.runKnown args terminal {} 0 0
