/-!
# Where programs print

A terminal shows everything in order, and clearing it is a sequence of its own in what it is sent. A
buffer keeps the text, and clearing it forgets the text. A silent console takes nothing.
-/
namespace ExprScript

inductive ConsoleKind where
  | terminal
  | buffer
  | silent
  deriving DecidableEq, Inhabited

structure Console where
  kind : ConsoleKind
  text : String := ""
  deriving Inhabited

namespace Console

/-- Erases the display and goes to its top left corner. -/
def clearSequence : String := "\x1b[2J\x1b[H"

def print (console : Console) (text : String) : Console :=
  match console.kind with
  | .silent => console
  | _ => { console with text := console.text ++ text }

def printLine (console : Console) (line : String) : Console :=
  (console.print line).print "\n"

def clear (console : Console) : Console :=
  match console.kind with
  | .terminal => console.print clearSequence
  | .buffer => { console with text := "" }
  | .silent => console

end Console
end ExprScript
