import ExprScript.Number.Int64
import ExprScript.Number.Remainder
import ExprScript.Value.Equality
import ExprScript.Value.Convert

/-!
# Operators on values

An operator looks at the kinds of its operands; a combination without a rule is a fault over both
spans. Division and remainder by zero, and divisions of infinities, warn and go on with a
substitute.
-/
namespace ExprScript

/-- A value with the place that it was evaluated from. -/
structure Operand where
  value : Value
  span : Span

/-- The longest text that a repetition builds, in bytes. -/
def maxRepeatedBytes : Nat := 0x10000000

/-- A text a number of times, behind what is there already. -/
def repeatOnto (text : String) : Nat → String → String
  | 0, out => out
  | count + 1, out => repeatOnto text count (out ++ text)

namespace Operate

def mismatch (op : String) (left right : Operand) : Diagnostic :=
  Fault.mismatch (left.span.merge right.span) op left.value right.value

/-! ## Repeating texts -/

/-- How often a number repeats a text. Floats are rounded, with a warning unless the number stands
first, which has a warning of its own. -/
def repeatCount (count : Number) (span : Span) (numberFirst : Bool) : Checked Nat := do
  let rounded ←
    match count with
    | .int n => pure n
    | .float x =>
      match truncate? x.round with
      | none => throw (Fault.overflow span "as int")
      | some n => do
        unless numberFirst do
          Checked.warn .stringMultFloat span [count.display, (Number.int n).display]
        pure n
  if numberFirst then
    Checked.warn .valueMultString span [(Number.int rounded).display]
  return rounded.toInt.toNat

def repeatText (text : String) (count : Nat) (span : Span) : Checked Value := do
  let bytes := text.utf8ByteSize
  if maxRepeatedBytes < bytes * count then
    throw (Fault.illegalValue span
      s!"Repeating a string of length {bytes} {count} times is too long")
  else return .str (if bytes = 0 then "" else repeatOnto text count "")

/-! ## Infinities -/

def infinityLeft (op : ArithOp) (dividend : Dividend) (left right : Operand) : Checked Value := do
  let span := left.span.merge right.span
  match op, right.value, right.value.toNumber? with
  | .div, .infinity _, _ | .floorDiv, .infinity _, _ =>
    Checked.warn .infinityDivInfinity span []
    return .int 0
  | .div, value, some _ | .floorDiv, value, some _ =>
    Checked.warn .infinityDivValue span [value.printed]
    return .infinity dividend
  | .mul, _, some n => return if n.isZero then dividend.toValue else .infinity dividend
  | _, _, _ => throw (mismatch op.symbol left right)

/-- An infinity on the right of something finite. -/
def infinityRight (op : ArithOp) (dividend : Dividend) (left right : Operand) :
    Checked Value := do
  let span := left.span.merge right.span
  match op, left.value.toNumber? with
  | .div, some n | .floorDiv, some n =>
    Checked.warn .valueDivInfinity span [left.value.printed]
    return n.zeroLike.toValue
  | .mul, some n => return if n.isZero then dividend.toValue else .infinity dividend
  | _, _ => throw (mismatch op.symbol left right)

/-! ## Numbers -/

/-- Two ints give an int, except for quotients and negative powers. -/
def ints? (op : ArithOp) (x y : Int64) : Option Number :=
  match op with
  | .add => (Int64Ops.add? x y).map .int
  | .sub => (Int64Ops.sub? x y).map .int
  | .mul => (Int64Ops.mul? x y).map .int
  | .div => some (.float (Int64Ops.toFloat x / Int64Ops.toFloat y))
  | .floorDiv => (Int64Ops.floorDiv? x y).map .int
  | .mod => (Int64Ops.floorMod? x y).map .int
  | .pow =>
    if y < 0 then some (.float ((Int64Ops.toFloat x).pow (Int64Ops.toFloat y)))
    else (Int64Ops.pow? x y.toInt.toNat).map .int

def floats (op : ArithOp) (x y : Float) : Float :=
  match op with
  | .add => x + y
  | .sub => x - y
  | .mul => x * y
  | .div => x / y
  | .floorDiv => (x / y).floor
  | .mod => floatFloorMod x y
  | .pow => x.pow y

def numbers (op : ArithOp) (a b : Number) (span : Span) : Except Diagnostic Value :=
  match a, b with
  | .int x, .int y =>
    match ints? op x y with
    | some n => .ok n.toValue
    | none => .error (Fault.overflow span op.symbol)
  | a, b => .ok (.float (floats op a.toFloat b.toFloat))

/-- Two numbers. A quotient by zero is an infinity and a remainder by zero is zero. -/
def numeric (op : ArithOp) (dividend : Dividend) (b : Number) (span : Span) : Checked Value := do
  let a := dividend.toNumber
  match op, b.isZero with
  | .div, true | .floorDiv, true =>
    Checked.warn .divideByZero span [a.display]
    return .infinity dividend
  | .mod, true =>
    Checked.warn .modByZero span [a.display]
    return a.zeroLike.toValue
  | _, _ => MonadExcept.ofExcept (numbers op a b span)

/-! ## Arithmetic on values -/

def joinsText : Value → Bool
  | .str _ | .int _ | .float _ | .bool _ | .null => true
  | _ => false

/-- Arithmetic, a list with a number apart. -/
def single (op : ArithOp) (left right : Operand) : Checked Value := do
  let span := left.span.merge right.span
  match op, left.value, right.value with
  | .add, .null, .str text => return .str ("null" ++ text)
  | .add, .null, other => return other
  | .add, .str text, other =>
    if joinsText other then return .str (text ++ other.printed)
    else throw (mismatch op.symbol left right)
  | .mul, .str text, other =>
    match other.toNumber? with
    | some n => repeatText text (← repeatCount n right.span false) span
    | none => throw (mismatch op.symbol left right)
  | .mul, other, .str text =>
    match other.toNumber? with
    | some n => repeatText text (← repeatCount n left.span true) span
    | none => throw (mismatch op.symbol left right)
  | .add, .list a, .list b => return .list (a ++ b)
  | _, .infinity dividend, _ => infinityLeft op dividend left right
  | _, _, .infinity dividend => infinityRight op dividend left right
  | _, a, b =>
    match a.toDividend?, b.toNumber? with
    | some dividend, some n => numeric op dividend n span
    | _, _ => throw (mismatch op.symbol left right)

mutual

/-- Arithmetic; a number on the right of a list is applied to each of its elements. -/
def arithmetic (op : ArithOp) (leftSpan : Span) (right : Operand) : Value → Checked Value
  | .list items =>
    if right.value.toNumber?.isSome then do
      return .list (← eachElement op leftSpan right items)
    else single op ⟨.list items, leftSpan⟩ right
  | left => single op ⟨left, leftSpan⟩ right

def eachElement (op : ArithOp) (leftSpan : Span) (right : Operand) :
    List Value → Checked (List Value)
  | [] => return []
  | item :: items => do
    let first ← arithmetic op leftSpan right item
    let rest ← eachElement op leftSpan right items
    return first :: rest

end

/-! ## Comparisons -/

/-- The order of two texts or two numbers, the latter none if one is no number at all; nothing for
other values. -/
def compare? (left right : Value) : Option (Option Ordering) :=
  match left, right with
  | .str a, .str b => some (some (compare a b))
  | _, _ =>
    match left.toNumber?, right.toNumber? with
    | some (.int a), some (.int b) => some (some (compare a.toInt b.toInt))
    | some a, some b =>
      let x := a.toFloat
      let y := b.toFloat
      some (if x < y then some .lt else if y < x then some .gt
        else if x == y then some .eq else none)
    | _, _ => none

def holds (op : OrderOp) (ordering : Ordering) : Bool :=
  match op with
  | .lt => ordering.isLT
  | .le => ordering.isLE
  | .gt => ordering.isGT
  | .ge => ordering.isGE

/-- Comparison by order, which fails for everything with a float that is no number. -/
def ordered (op : OrderOp) (left right : Operand) : Except Diagnostic Value :=
  match compare? left.value right.value with
  | some ordering => .ok (.bool (ordering.any (holds op)))
  | none => .error (mismatch op.symbol left right)

/-- Any operator between two values; both are evaluated already. -/
def binary (op : BinaryOp) (left right : Operand) : Checked Value :=
  match op with
  | .and => return .bool (left.value.isTrue && right.value.isTrue)
  | .or => return .bool (left.value.isTrue || right.value.isTrue)
  | .eq => return .bool (left.value.equals right.value)
  | .ne => return .bool (!left.value.equals right.value)
  | .order op => MonadExcept.ofExcept (ordered op left right)
  | .arith op => arithmetic op left.span right left.value

/-! ## Signs -/

def negate (n : Number) (span : Span) : Except Diagnostic Number :=
  match n with
  | .float x => .ok (.float (-x))
  | .int i =>
    match Int64Ops.neg? i with
    | some i => .ok (.int i)
    | none => .error (Fault.overflow span UnaryOp.neg.symbol)

def signed (negative : Bool) (span : Span) (value : Value) : Except Diagnostic Value :=
  let op := if negative then UnaryOp.neg else .plus
  match value, value.toNumber? with
  | .infinity dividend, _ =>
    if negative then
      (negate dividend.toNumber span).map fun n => .infinity (.number n)
    else .ok value
  | _, some n => if negative then (negate n span).map Number.toValue else .ok n.toValue
  | _, none => .error (Fault.illegalOperation span op.symbol value.typeName)

mutual

/-- A sign before a value; before a list it applies to each element. -/
def sign (negative : Bool) (span : Span) : Value → Except Diagnostic Value
  | .list items => do return .list (← signAll negative span items)
  | value => signed negative span value

def signAll (negative : Bool) (span : Span) : List Value → Except Diagnostic (List Value)
  | [] => return []
  | item :: items => do
    let first ← sign negative span item
    let rest ← signAll negative span items
    return first :: rest

end

def unary (op : UnaryOp) (operand : Operand) : Except Diagnostic Value :=
  match op with
  | .not => .ok (.bool (!operand.value.isTrue))
  | .neg => sign true operand.span operand.value
  | .plus => sign false operand.span operand.value

end Operate
end ExprScript
