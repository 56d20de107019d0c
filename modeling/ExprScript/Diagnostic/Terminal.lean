import ExprScript.Diagnostic.Basic

/-!
# Diagnostics on a terminal

A diagnostic is shown as a framed block: title, message, traceback with the outermost call first,
the covered source lines with carets below them, and a hint.
-/
namespace ExprScript

/-- The escape sequences that set and reset colors. -/
structure Palette where
  error : String
  warning : String
  name : String
  reset : String

def ansiPalette : Palette :=
  ⟨"\x1b[1;31m", "\x1b[1;33m", "\x1b[35m", "\x1b[0m"⟩

def plainPalette : Palette := ⟨"", "", "", ""⟩

def repeatChar (c : Char) (count : Nat) : String :=
  "".pushn c count

namespace Diagnostic

def traceLine (span : Span) (name : String) : String :=
  s!"  Line {span.start.line + 1}, in {name}"

/-- The lines of a traceback, innermost first: the fault in the innermost function, then each call
in the function that made it. -/
def traceFrom (span : Span) : List TraceFrame → List String
  | [] => [traceLine span programName]
  | frame :: frames => traceLine span frame.name :: traceFrom frame.callSpan frames

def traceback (d : Diagnostic) : List String :=
  (traceFrom d.span d.frames).reverse

/-- The lines from `index` on, each with a line of carets below it. -/
def underlineFrom (span : Span) (last : Nat) : Nat → List (List Char) → List String
  | _, [] => []
  | index, text :: texts =>
    let first := span.start.line
    let lo := if index = first then span.start.column else 0
    let hi := if index = last ∧ span.stop.line = last then span.stop.column else text.length
    if first < index ∧ hi = 0 then []
    else
      String.ofList text :: (repeatChar ' ' lo ++ repeatChar '^' (max (hi - lo) 1)) ::
        (if index < last then underlineFrom span last (index + 1) texts else [])

/-- The source lines that a span covers, each with a line of carets below it. -/
def underline (file : SourceFile) (span : Span) : List String :=
  let first := span.start.line
  underlineFrom span (max first span.stop.line) first ((splitLines file.text.toList).drop first)

def render (palette : Palette) (d : Diagnostic) : String :=
  let label := d.code.label
  let title := fun paint reset => s!"{d.severity}: {paint}{d.code.title}{reset} ({label})"
  let body := d.message :: "Traceback (most recent call):" :: d.traceback ++
    (match d.source with
      | none => []
      | some file => underline file d.span)
  let hint := s!"Use 'fck --explain {label}' for more details"
  let width := (title "" "" :: hint :: body).foldl (fun n line => max n line.length) 0
  let color := if d.code.isWarning then palette.warning else palette.error
  let border := color ++ repeatChar '*' width ++ palette.reset
  let lines := [border, title palette.name palette.reset] ++ body ++ ["", hint, border]
  lines.foldl (fun out line => out ++ line ++ "\n") ""

end Diagnostic
end ExprScript
