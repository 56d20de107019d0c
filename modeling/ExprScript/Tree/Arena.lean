import ExprScript.Names
import ExprScript.Text.Position
import ExprScript.Types

/-!
# Syntax trees in an arena

Every construct of the language is an expression. The nodes of one parse lie in one array and refer
to their children by index; lists of children lie in side tables, and a node refers to such a list
by the run of entries it takes there. A child is stored before its parent.
-/
namespace ExprScript

/-- The index of a node in its arena. -/
structure NodeId where
  index : Nat
  deriving DecidableEq, Inhabited

/-- Consecutive entries of a side table. -/
structure Run (α : Type) where
  start : Nat
  length : Nat
  deriving DecidableEq, Inhabited

/-- The longest list that a side table takes. -/
def maxRunLength : Nat := 65535

inductive IndexSpec where
  | single (index : NodeId)
  | range (first last : NodeId)
  deriving DecidableEq, Inhabited

structure Branch where
  condition : NodeId
  body : NodeId
  deriving DecidableEq, Inhabited

structure CaseArm where
  pattern : NodeId
  body : NodeId
  deriving DecidableEq, Inhabited

/-- An argument of a call, with or without the name of its parameter. -/
structure Argument where
  name : Option Name
  value : NodeId
  span : Span
  deriving DecidableEq, Inhabited

structure Parameter where
  name : Name
  type : DeclaredType
  default : Option NodeId
  span : Span
  deriving DecidableEq, Inhabited

/-- An expression whose parts are nodes of the same arena. -/
inductive Expr where
  | int (value : Int64)
  | float (value : Float)
  | str (text : Name)
  | ident (name : Name)
  | list (items : Run NodeId)
  | block (statements : Run NodeId)
  | index (target : NodeId) (specs : Run IndexSpec)
  | member (target : NodeId) (name : Name)
  | cast (operand : NodeId) (type : ValueType)
  | binary (op : BinaryOp) (left right : NodeId)
  | unary (op : UnaryOp) (operand : NodeId)
  | ternary (condition : NodeId) (positive negative : Option NodeId)
  | declare (type : DeclaredType) (name : Name) (value : Option NodeId) (yields : Bool)
  | assign (name : Name) (op : AssignOp) (value : NodeId) (yields : Bool)
  | ifElse (branches : Run Branch) (otherwise : Option NodeId)
  | caseOf (subject : NodeId) (arms : Run CaseArm) (otherwise : Option NodeId)
  | iterate (label : Option Name) (first : Option NodeId) (last : NodeId) (step : Option NodeId)
      (counter : Option Name) (body : NodeId)
  | whileLoop (label : Option Name) (condition body : NodeId)
  | define (name : Option Name) (params : Run Parameter) (body : NodeId)
  | call (callee : NodeId) (args : Run Argument)
  | returnValue (value guard : Option NodeId)
  | breakLoop (label : Option Name) (guard : Option NodeId)
  | continueLoop (label : Option Name) (guard : Option NodeId)
  deriving Inhabited

structure Node where
  expr : Expr
  span : Span
  deriving Inhabited

/-- The nodes of one parse and the side tables for lists of children. -/
structure Arena where
  nodes : Array Node := #[]
  lists : Array NodeId := #[]
  specs : Array IndexSpec := #[]
  branches : Array Branch := #[]
  arms : Array CaseArm := #[]
  params : Array Parameter := #[]
  args : Array Argument := #[]
  deriving Inhabited

/-- The entries of a run, if it lies inside the table. -/
def Run.entries? {α : Type} (run : Run α) (table : Array α) : Option (List α) :=
  if run.start + run.length ≤ table.size then
    some (table.extract run.start (run.start + run.length)).toList
  else none

def appendRun {α : Type} (table : Array α) (items : List α) : Run α × Array α :=
  (⟨table.size, items.length⟩, table ++ items.toArray)

theorem entries?_appendRun {α : Type} (table : Array α) (items : List α) :
    (appendRun table items).1.entries? (appendRun table items).2 = some items := by
  simp [appendRun, Run.entries?]

namespace Arena

def empty : Arena := {}

def node? (arena : Arena) (id : NodeId) : Option Node :=
  arena.nodes[id.index]?

def push (arena : Arena) (node : Node) : NodeId × Arena :=
  (⟨arena.nodes.size⟩, { arena with nodes := arena.nodes.push node })

/-- How many nodes there are, those of abandoned attempts among them. -/
def size (arena : Arena) : Nat := arena.nodes.size

theorem node?_push (arena : Arena) (node : Node) :
    (arena.push node).2.node? (arena.push node).1 = some node := by
  simp [push, node?]

/-- The span of a node; a node that is not there has an empty one. -/
def spanOf (arena : Arena) (id : NodeId) : Span :=
  match arena.node? id with
  | some node => node.span
  | none => {}

end Arena
end ExprScript
