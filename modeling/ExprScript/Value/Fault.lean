import ExprScript.Diagnostic.Basic
import ExprScript.Value.Display

/-!
# Faults of evaluation

Every kind of fault that operators, conversions, calls and accesses report is built here, so that
one kind is worded in one way.
-/
namespace ExprScript

/-- A computation that may warn and may fail. -/
abbrev Checked := EStateM Diagnostic (Array Diagnostic)

namespace Checked

def warn (code : Code) (span : Span) (args : List String) : Checked Unit :=
  modify fun warnings => warnings.push ⟨code, span, args, [], none⟩

def outcome {α : Type} (p : Checked α) : Except Diagnostic α × List Diagnostic :=
  match p.run #[] with
  | .ok a warnings => (.ok a, warnings.toList)
  | .error d warnings => (.error d, warnings.toList)

end Checked

namespace Fault

/-- Texts and numbers are described with their value, lists by their length. -/
def describe : Value → String
  | .list items => s!"list of {items.length} elements"
  | value@(.int _) | value@(.float _) | value@(.bool _) | value@(.str _) =>
    s!"{value.typeName} {value.display}"
  | value => value.typeName

def illegalOperation (span : Span) (op operands : String) : Diagnostic :=
  ⟨.illegalOperation, span, [op, operands], [], none⟩

/-- An operator has no meaning between the two kinds of values. -/
def mismatch (span : Span) (op : String) (left right : Value) : Diagnostic :=
  illegalOperation span op s!"{left.typeName} and {right.typeName}"

def overflow (span : Span) (op : String) : Diagnostic :=
  ⟨.numberOverflow, span, [op], [], none⟩

def illegalValue (span : Span) (message : String) : Diagnostic :=
  ⟨.illegalValue, span, [message], [], none⟩

def illegalValueType (span : Span) (value : Value) (usage : String) : Diagnostic :=
  ⟨.illegalValueType, span, [value.typeName, usage], [], none⟩

def illegalCast (span : Span) (value : Value) (target : ValueType) : Diagnostic :=
  ⟨.illegalCastType, span, [describe value, target.name], [], none⟩

def illegalVariableValue (span : Span) (value : Value) (type : ValueType) (name : String) :
    Diagnostic :=
  ⟨.illegalVariableValue, span, [value.typeName, type.name, name], [], none⟩

def invalidIterable (span : Span) (value : Value) : Diagnostic :=
  ⟨.invalidIterable, span, [value.typeName], [], none⟩

def unknownAttribute (span : Span) (owner attr : String) : Diagnostic :=
  ⟨.unknownAttribute, span, [owner, attr], [], none⟩

def unknownIdentifier (span : Span) (name : String) : Diagnostic :=
  ⟨.unknownIdentifier, span, [name], [], none⟩

def notCallable (span : Span) (value : Value) : Diagnostic :=
  ⟨.notCallable, span, [value.typeName], [], none⟩

/-- Wrong number of arguments, or one given twice. -/
def wrongArguments (span : Span) (function problem : String) : Diagnostic :=
  ⟨.tooArgument, span, [s!"'{function}'", problem], [], none⟩

def argumentType (span : Span) (param function : String) (expected : ValueType) (got : Value) :
    Diagnostic :=
  ⟨.argumentType, span, [param, s!"'{function}'", expected.name, got.typeName], [], none⟩

def illegalArgumentValue (span : Span) (param function problem : String) : Diagnostic :=
  ⟨.illegalArgumentValue, span, [param, s!"'{function}'", problem], [], none⟩

def returnOutsideFunction (span : Span) : Diagnostic :=
  ⟨.returnOutsideFunction, span, [], [], none⟩

end Fault
end ExprScript
