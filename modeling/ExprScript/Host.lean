import ExprScript.Host.Directory
import ExprScript.Text.Source

/-!
# What surrounds a program

A program can read files and lines of input. What is known of both is a value, so that running a
program is a function; where it asks for more than is known, the run is given up and can be made
again with the answer added.
-/
namespace ExprScript

structure Host where
  /-- What reading a file gives, unless nobody has tried yet. -/
  read? : String → Option (Except FileFault String)
  /-- The lines of input that nobody has taken yet. -/
  lines : List String
  /-- Whether there are no lines but these. -/
  ended : Bool

inductive Need where
  | file (path : String)
  | line
  deriving DecidableEq

def trimReturns (line : List Char) : String :=
  String.ofList (line.reverse.dropWhile (· = '\r')).reverse

/-- The lines of an input, the last of which may lack its line feed. -/
def inputLines (text : String) : List String :=
  let pieces := splitLines text.toList
  let pieces := if pieces.getLast? = some [] then pieces.dropLast else pieces
  pieces.map trimReturns

namespace Host

def ofKnown (files : Directory) (input : String) : Host :=
  ⟨fun path => some (files.read path), inputLines input, true⟩

/-- Takes a line: none at the end of the input. -/
def takeLine (host : Host) : Except Need (Option String × Host) :=
  match host.lines with
  | line :: lines => .ok (some line, { host with lines })
  | [] => if host.ended then .ok (none, host) else .error .line

def readFile (host : Host) (path : String) : Except Need (Except FileFault String) :=
  match host.read? path with
  | some answer => .ok answer
  | none => .error (.file path)

end Host
end ExprScript
