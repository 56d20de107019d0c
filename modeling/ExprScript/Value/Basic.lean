import ExprScript.Number.Int64
import ExprScript.Tree.Script

/-!
# Values

Values never change once built. A quotient by zero is an infinity that remembers what was divided.
Functions carry the script they were written in and the scope they were defined in; two functions
are the same only if one evaluation made both, which their number tells.
-/
namespace ExprScript

structure ScopeId where
  index : Nat
  deriving DecidableEq, Inhabited

inductive Number where
  | int (value : Int64)
  | float (value : Float)

namespace Number

def toFloat : Number → Float
  | .int n => Int64Ops.toFloat n
  | .float x => x

def isZero : Number → Bool
  | .int n => n = 0
  | .float x => x == 0

def isNegative : Number → Bool
  | .int n => n < 0
  | .float x => x < 0

def zeroLike : Number → Number
  | .int _ => .int 0
  | .float _ => .float 0

/-- Whether two numbers are equal; numbers of different kinds are compared as floats. -/
def same : Number → Number → Bool
  | .int a, .int b => a = b
  | a, b => a.toFloat == b.toFloat

end Number

/-- What was divided by zero. -/
inductive Dividend where
  | number (n : Number)
  | bool (b : Bool)

def boolNumber (b : Bool) : Number := .int (if b then 1 else 0)

namespace Dividend

def toNumber : Dividend → Number
  | .number n => n
  | .bool b => boolNumber b

def isNegative (d : Dividend) : Bool := d.toNumber.isNegative

end Dividend

structure Function where
  id : Nat
  name : Option Name
  /-- The name in messages. -/
  display : String
  params : List Parameter
  body : NodeId
  script : Script
  closure : ScopeId

inductive Action where
  | print
  | log
  | input
  | clear
  | type
  | len
  | run
  | quit
  /-- Takes nothing and gives null. -/
  | idle (name : String)
  deriving DecidableEq

def Action.name : Action → String
  | .print => "print"
  | .log => "log"
  | .input => "input"
  | .clear => "clear"
  | .type => "type"
  | .len => "len"
  | .run => "run"
  | .quit => "quit"
  | .idle name => name

structure Builtin where
  id : Nat
  action : Action

def Builtin.name (b : Builtin) : String := b.action.name

inductive Value where
  | null
  | int (value : Int64)
  | float (value : Float)
  | bool (value : Bool)
  | str (text : String)
  | list (items : List Value)
  | infinity (dividend : Dividend)
  | function (function : Function)
  | builtin (builtin : Builtin)

instance : Inhabited Value := ⟨.null⟩

def Number.toValue : Number → Value
  | .int n => .int n
  | .float x => .float x

def Dividend.toValue : Dividend → Value
  | .number n => n.toValue
  | .bool b => .bool b

namespace Value

/-- The name of a value's type as programs see it. -/
def typeName : Value → String
  | .null => "null"
  | .int _ => "int"
  | .float _ => "float"
  | .bool _ => "bool"
  | .str _ => "str"
  | .list _ => "list"
  | .infinity _ => "infinity"
  | .function _ | .builtin _ => "function"

/-- Numbers are true when greater than zero, texts and lists when they hold something. -/
def isTrue : Value → Bool
  | .null => false
  | .int n => 0 < n
  | .float x => 0 < x
  | .bool b => b
  | .str text => !text.isEmpty
  | .list items => !items.isEmpty
  | .infinity dividend => !dividend.isNegative
  | .function _ | .builtin _ => true

/-- Numbers as themselves, booleans as 0 and 1. -/
def toNumber? : Value → Option Number
  | .int n => some (.int n)
  | .float x => some (.float x)
  | .bool b => some (boolNumber b)
  | _ => none

def toDividend? : Value → Option Dividend
  | .bool b => some (.bool b)
  | value => value.toNumber?.map .number

/-- The number of elements or characters. -/
def length? : Value → Option Nat
  | .str text => some text.length
  | .list items => some items.length
  | _ => none

def hasType : Value → ValueType → Bool
  | .int _, .int | .float _, .float | .bool _, .bool | .str _, .str | .list _, .list => true
  | _, _ => false

end Value
end ExprScript
