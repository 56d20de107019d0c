import ExprScript.Value.Convert

/-!
# Arguments and parameters

A call gives some arguments by name and the others by position. Named arguments take their
parameters first. The others fill what is left from left to right: every parameter that needs an
argument, and as many of the leftmost optional ones as there are arguments to spare.
-/
namespace ExprScript

/-- A parameter as a call sees it. -/
structure Formal where
  name : String
  type : DeclaredType
  /-- Whether the call may leave it out. -/
  optional : Bool

structure Given where
  name : Option String
  value : Value
  span : Span

namespace Arguments

/-- Puts the named arguments, in their order, to the first parameters of their names. -/
def placeNamed (function : String) (formals : List Formal) :
    List Given → List (Option Given) → Except Diagnostic (List (Option Given))
  | [], slots => .ok slots
  | given :: rest, slots =>
    match given.name with
    | none => placeNamed function formals rest slots
    | some name =>
      match formals.findIdx? (·.name = name) with
      | none => .error (Fault.unknownAttribute given.span s!"function '{function}'" name)
      | some i =>
        if slots[i]?.join.isSome then
          .error (Fault.wrongArguments given.span function
            s!"argument '{name}' given more than once")
        else placeNamed function formals rest (slots.set i (some given))

/-- Fills free parameters from the left. Optional ones are passed over once nothing is to spare. -/
def fillFree : List Formal → List (Option Given) → Nat → List Given → List (Option Given)
  | formal :: formals, slot :: slots, spare, given =>
    match slot, given with
    | some taken, _ => some taken :: fillFree formals slots spare given
    | none, [] => none :: fillFree formals slots spare []
    | none, next :: rest =>
      if !formal.optional then some next :: fillFree formals slots spare rest
      else
        match spare with
        | 0 => none :: fillFree formals slots 0 (next :: rest)
        | spare + 1 => some next :: fillFree formals slots spare rest
  | _, _, _, _ => []

def free (formals : List Formal) (slots : List (Option Given)) : List Formal :=
  ((formals.zip slots).filter (·.2.isNone)).map (·.1)

/-- The first parameter that needs an argument and has none. -/
def missing? (formals : List Formal) (slots : List (Option Given)) : Option Formal :=
  (free formals slots).find? (!·.optional)

/-- For every parameter the argument that it gets. -/
def bind (function : String) (formals : List Formal) (given : List Given) (span : Span) :
    Except Diagnostic (List (Option Given)) := do
  let slots ← placeNamed function formals given (formals.map fun _ => none)
  let positional := given.filter (·.name.isNone)
  let vacant := free formals slots
  if vacant.length < positional.length then
    .error (Fault.wrongArguments span function
      s!"expected at most {formals.length} arguments, got {given.length}")
  else
    let required := (vacant.filter (!·.optional)).length
    let slots := fillFree formals slots (positional.length - required) positional
    match missing? formals slots with
    | some formal =>
      .error (Fault.wrongArguments span function s!"missing argument '{formal.name}'")
    | none => .ok slots

/-- The argument in the type of its parameter. If it cannot be cast, an optional parameter goes
without it. -/
def cast (function : String) (formal : Formal) (given : Given) : Checked (Option Value) := do
  match formal.type with
  | .auto => return some given.value
  | .typed type =>
    match given.value.castTo type given.span with
    | .ok value => return some value
    | .error _ =>
      if formal.optional then do
        Checked.warn .argCastError given.span [formal.name, type.name]
        return none
      else throw (Fault.argumentType given.span formal.name function type given.value)

def values (function : String) (formals : List Formal) (given : List Given) (span : Span) :
    Checked (List (Option Value)) := do
  let slots ← MonadExcept.ofExcept (bind function formals given span)
  (formals.zip slots).mapM fun (formal, slot) =>
    match slot with
    | none => return none
    | some given => cast function formal given

end Arguments
end ExprScript
