import ExprScript.Machine
import ExprScript.Number.Int64

/-!
# Loops

A loop stops a `break` or `continue` that names no loop or this one; one that names another loop
goes on outward. A loop over a list runs once per element, the others as long as their condition
holds.
-/
namespace ExprScript

structure IterateParts where
  label : Option Name
  first : Option NodeId
  last : NodeId
  step : Option NodeId
  counter : Option Name
  body : NodeId

/-- What a loop does after a run of its body. -/
inductive Flow where
  | next
  | stop
  deriving DecidableEq

namespace Number

def order? (a b : Number) : Option Ordering :=
  match a, b with
  | .int x, .int y => some (compare x.toInt y.toInt)
  | a, b =>
    let x := a.toFloat
    let y := b.toFloat
    if x < y then some .lt else if y < x then some .gt else if x == y then some .eq else none

/-- The counter one step on; two ints must give an int. -/
def advance? (counter step : Number) : Option Number :=
  match counter, step with
  | .int a, .int b => (Int64Ops.add? a b).map .int
  | a, b => some (.float (a.toFloat + b.toFloat))

end Number

namespace Eval

def aimsAt (label signal : Option Name) : Bool :=
  signal.isNone || signal = label

@[inline] def runBody (label : Option Name) (body : Eval Value) : Eval Flow := fun m =>
  match body m with
  | .ok _ m => .ok .next m
  | .error (.broke signal) m =>
    if aimsAt label signal then .ok .stop m else .error (.broke signal) m
  | .error (.continued signal) m =>
    if aimsAt label signal then .ok .next m else .error (.continued signal) m
  | .error e m => .error e m

/-! ## Loops with a condition -/

/-- Runs the body as long as the condition holds, at most so many times. -/
def whileLoop (label : Option Name) (condition body : Eval Value) : Nat → Eval Value
  | 0 => giveUp .outOfLevels
  | rounds + 1 => do
    if (← condition).isTrue then
      match ← runBody label body with
      | .next => whileLoop label condition body rounds
      | .stop => return .null
    else return .null

/-! ## Loops over lists -/

def setCounter (counter : Option Name) (value : Value) : Eval Unit :=
  match counter with
  | none => return
  | some name => declare name ⟨value, .auto⟩

def eachLoop (label counter : Option Name) (body : Eval Value) : List Value → Eval Value
  | [] => return .null
  | item :: items => do
    setCounter counter item
    match ← runBody label body with
    | .next => eachLoop label counter body items
    | .stop => return .null

/-! ## Counting loops -/

/-- A value as a bound of a loop. An infinity is a bound that is never reached. -/
def loopNumber? : Value → Option Number
  | .infinity dividend =>
    let infinity := Float.ofBits 0x7FF0000000000000
    some (.float (if dividend.isNegative then -infinity else infinity))
  | value => value.toNumber?

def loopNumber (ev : NodeId → Eval Value) (expr : Option NodeId) (usage : String)
    (otherwise : Number) : Eval Number := do
  match expr with
  | none => return otherwise
  | some expr =>
    let span ← spanOf expr
    let value ← ev expr
    match loopNumber? value with
    | some n => return n
    | none => fault (Fault.illegalValueType span value usage)

/-- The counter after a run of the body, which may have changed it. -/
def readCounter (counter : Option Name) (expected : Number) (span : Span) : Eval Number := do
  match counter with
  | none => return expected
  | some name =>
    let value := match ← entry? name with
      | some entry => entry.value
      | none => .null
    match value.toNumber? with
    | some n => return n
    | none => fault (Fault.illegalValueType span value "as a loop counter")

/-- Runs the body as long as the counter has not reached the last number, at most so many times. -/
def countLoop (parts : IterateParts) (body : Eval Value) (last step : Number) (toward : Ordering)
    (span : Span) : Nat → Number → Eval Value
  | 0, _ => giveUp .outOfLevels
  | rounds + 1, counter => do
    if counter.order? last = some toward then
      setCounter parts.counter counter.toValue
      let flow ← runBody parts.label body
      let counter ← readCounter parts.counter counter span
      match flow with
      | .stop => return .null
      | .next =>
        match counter.advance? step with
        | some counter => countLoop parts body last step toward span rounds counter
        | none => fault (Fault.overflow span "iterate")
    else return .null

/-- How the counter of a loop compares with the last number as long as the loop runs. -/
def towardLast (step : Number) : Ordering := if step.isNegative then .gt else .lt

/-- A counting loop up to a number. It does not start, but warns, if the step leads nowhere or away
from the end. -/
def countTo (ev : NodeId → Eval Value) (rounds : Nat) (parts : IterateParts) (last : Number)
    (span : Span) : Eval Value := do
  let first ← loopNumber ev parts.first "as a loop start" (.int 0)
  let step ← loopNumber ev parts.step "as a loop step" (.int 1)
  if step.isZero then
    warn .iterateStepZero span [last.display]
    return .null
  else if first.order? last = some (towardLast step).swap then
    warn .iterateStepLoop span [step.display, last.display, first.display]
    return .null
  else countLoop parts (ev parts.body) last step (towardLast step) span rounds first

/-- A loop over a list, or a counting loop. Its variable lives in a scope around the body. -/
def evalIterate (ev : NodeId → Eval Value) (rounds : Nat) (parts : IterateParts) (span : Span) :
    Eval Value := do
  let lastSpan ← spanOf parts.last
  let last ← ev parts.last
  inNewScope do
    match last with
    | .list items =>
      if parts.first.isSome || parts.step.isSome then
        fault (Fault.illegalValue span
          "A start or step cannot be combined with iterating over a list")
      else eachLoop parts.label parts.counter (ev parts.body) items
    | other =>
      match loopNumber? other with
      | some n => countTo ev rounds parts n span
      | none => fault (Fault.invalidIterable lastSpan other)

end Eval
end ExprScript
