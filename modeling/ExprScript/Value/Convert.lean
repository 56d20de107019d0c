import ExprScript.Number.Read
import ExprScript.Value.Fault

/-!
# Conversions between types

A cast is explicit and fails where a value has no counterpart in the target type. The coercion of a
value that is stored in a typed variable is implicit: it warns where it changes the kind of a value,
and it leaves infinities in numeric variables.
-/
namespace ExprScript

/-- What a variable of the type holds when it is declared without a value. -/
def ValueType.zero : ValueType → Value
  | .int => .int 0
  | .float => .float 0
  | .bool => .bool false
  | .str => .str ""
  | .list => .list []

mutual

/-- Whether a value is anything but a list of nothing but empty lists. -/
def Value.hasContent : Value → Bool
  | .list items => anyContent items
  | _ => true

def anyContent : List Value → Bool
  | [] => false
  | item :: items => item.hasContent || anyContent items

end

/-- The only element of a list, through nested lists of one element. -/
def singleElement? : List Value → Option Value
  | [.list inner] => singleElement? inner
  | [only] => some only
  | _ => none

/-- Whether a text says yes or no: by word, or as a number that is true or not. -/
def readBool? (text : String) : Option Bool :=
  let word := String.ofList ((trim text.toList).map Char.toLower)
  if word = "true" then some true
  else if word = "false" then some false
  else (readNumber? text).map fun n => n.toValue.isTrue

/-- The float without its fraction, if that fits into 64 bits. -/
def truncate? (x : Float) : Option Int64 :=
  let limit : Float := 9223372036854775808
  if x.isFinite && x < limit && !(x < -limit) then some x.toInt64 else none

def Number.toInt? : Number → Option Int64
  | .int n => some n
  | .float x => truncate? x

namespace Value

/-- Truncates toward zero, unless the result is too large. -/
def castInt (n : Number) (span : Span) : Except Diagnostic Value :=
  match n.toInt? with
  | some i => .ok (.int i)
  | none => .error (Fault.overflow span "as int")

/-- The cast of a value that is neither null nor a list. -/
def castScalar (value : Value) (target : ValueType) (span : Span) : Except Diagnostic Value :=
  match value, target with
  | value, .list => .ok (.list [value])
  | value, .str => .ok (.str value.printed)
  | .str text, .bool =>
    match readBool? text with
    | some b => .ok (.bool b)
    | none => .error (Fault.illegalCast span value target)
  | value, .bool => .ok (.bool value.isTrue)
  | .str text, .int =>
    match readNumber? text with
    | some n => castInt n span
    | none => .error (Fault.illegalCast span value target)
  | .str text, .float =>
    match readNumber? text with
    | some n => .ok (.float n.toFloat)
    | none => .error (Fault.illegalCast span value target)
  | .infinity dividend, .float =>
    let infinity := Float.ofBits 0x7FF0000000000000
    .ok (.float (if dividend.isNegative then -infinity else infinity))
  | value, .int =>
    match value.toNumber? with
    | some n => castInt n span
    | none => .error (Fault.illegalCast span value target)
  | value, .float =>
    match value.toNumber? with
    | some n => .ok (.float n.toFloat)
    | none => .error (Fault.illegalCast span value target)

/-- The explicit cast. A list is cast through its only element, unless it stays a list or says
whether it has content. -/
def castTo (value : Value) (target : ValueType) (span : Span) : Except Diagnostic Value :=
  match value, target with
  | .null, _ => .ok target.zero
  | .list items, .list => .ok (.list items)
  | .list items, .bool => .ok (.bool (anyContent items))
  | .list items, _ =>
    match singleElement? items with
    | some .null => .ok target.zero
    | some inner => inner.castScalar target span
    | none =>
      .error (Fault.illegalValue span
        s!"A list of {items.length} elements cannot be converted to {target.name}")
  | value, _ => value.castScalar target span

/-- The value that a variable of the given type and name takes, for a value that is no list. -/
def coerceScalar (value : Value) (type : ValueType) (name : String) (span : Span) :
    Checked Value := do
  match value, type with
  | .null, _ => return type.zero
  | .str _, .str => return value
  | _, .list =>
    Checked.warn .listFromValue span [value.typeName, name]
    return .list [value]
  | .str _, .int | .str _, .float =>
    let parsed ← MonadExcept.ofExcept (value.castTo type span)
    Checked.warn .valueFromString span [type.name, name]
    return parsed
  | .function _, _ | .builtin _, _ => throw (Fault.illegalVariableValue span value type name)
  | _, .str =>
    Checked.warn .stringFromValue span [value.typeName, name]
    return .str value.printed
  | .infinity _, .bool => return .bool value.isTrue
  | .infinity _, _ => return value
  | _, _ => MonadExcept.ofExcept (value.castTo type span)

/-- The value that a variable of the given type and name takes. -/
def coerce (value : Value) (type : DeclaredType) (name : String) (span : Span) :
    Checked Value := do
  match type, value with
  | .auto, _ => return value
  | .typed .list, .list _ => return value
  | .typed type, .list items =>
    match singleElement? items with
    | some inner =>
      Checked.warn .valueFromList span [type.name, name]
      inner.coerceScalar type name span
    | none => throw (Fault.illegalVariableValue span value type name)
  | .typed type, _ => value.coerceScalar type name span

end Value
end ExprScript
