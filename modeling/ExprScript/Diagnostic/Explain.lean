import ExprScript.Diagnostic.Docs

/-!
# Looking up the explanation of a code

The lookup is stricter than the reading of a code elsewhere: one letter and three digits, nothing
around them.
-/
namespace ExprScript

inductive ExplainError where
  | malformed (text : String)
  | zero
  | unknown (text : String) (warning : Bool)

/-- Whether the text is one of the letters E and W followed by three digits. -/
def hasCodeForm (text : String) : Bool :=
  match text.toList with
  | [letter, a, b, c] => ['E', 'e', 'W', 'w'].contains letter && [a, b, c].all Char.isDigit
  | _ => false

def lastLabel (warning : Bool) : String :=
  ((Code.all.reverse.find? (·.isWarning = warning)).map Code.label).getD ""

def ExplainError.message : ExplainError → String
  | .malformed text => s!"'{text}' is not a valid code: expected the form E000 or W000"
  | .zero => "codes start at E001 and W001"
  | .unknown text warning =>
    let group := if warning then "warning" else "error"
    s!"unknown code '{text}': {group} codes go up to {lastLabel warning}"

def explain (text : String) : Except ExplainError String :=
  if !hasCodeForm text then .error (.malformed text)
  else if text.toList.tail = ['0', '0', '0'] then .error .zero
  else
    match Code.ofText? text with
    | some code => .ok code.docs
    | none => .error (.unknown text (text.startsWith "W" || text.startsWith "w"))

end ExprScript
