import ExprScript.Diagnostic.Code
import ExprScript.Text.Source

/-!
# Diagnostics

A diagnostic is a fault with its place and the arguments of its message. Faults at run time also
carry the calls in progress, innermost first. The source is attached by whoever knows which text
the span points into, and the first attachment stays.
-/
namespace ExprScript

/-- A call in progress: the function's display name and the call expression's span. -/
structure TraceFrame where
  name : String
  callSpan : Span
  deriving DecidableEq, Inhabited

structure Diagnostic where
  code : Code
  span : Span
  args : List String := []
  frames : List TraceFrame := []
  source : Option SourceFile := none
  deriving DecidableEq, Inhabited

namespace Diagnostic

def message (d : Diagnostic) : String :=
  d.code.message d.args

def severity (d : Diagnostic) : String :=
  if d.code.isWarning then "Warning" else "Error"

def display (d : Diagnostic) : String :=
  s!"{d.severity}[{d.code.label}]: {d.message}"

/-- Attaches a source unless one is there already. -/
def withSource (d : Diagnostic) (file : SourceFile) : Diagnostic :=
  { d with source := d.source.or (some file) }

/-- Attaches the calls in progress unless some are there already. -/
def withFrames (d : Diagnostic) (frames : List TraceFrame) : Diagnostic :=
  if d.frames.isEmpty then { d with frames } else d

@[simp] theorem withSource_withSource (d : Diagnostic) (a b : SourceFile) :
    (d.withSource a).withSource b = d.withSource a := by
  cases h : d.source <;> simp [withSource, h]

theorem source_withSource_isSome (d : Diagnostic) (file : SourceFile) :
    (d.withSource file).source.isSome := by
  cases h : d.source <;> simp [withSource, h]

end Diagnostic

/-- The name of code outside of all functions in a traceback. -/
def programName : String := "<program>"

end ExprScript
