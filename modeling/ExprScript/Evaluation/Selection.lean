import ExprScript.Machine
import ExprScript.Value.Convert

/-!
# Indexing and attributes

A list is indexed by its elements, a text by its characters. Negative indexes count from the end. An
index outside is moved to the nearest one inside, with a warning; the ends of a range are moved
without one.
-/
namespace ExprScript

/-- Two places among a number of elements, the second one not before the first. -/
structure Stretch (size : Nat) where
  first : Nat
  last : Nat
  ordered : first ≤ last
  inside : last ≤ size

namespace Stretch

/-- From one place up to another; nothing if the other one does not lie behind it. -/
def between {size : Nat} (lo hi : Fin (size + 1)) : Stretch size where
  first := lo
  last := max lo hi
  ordered := Nat.le_max_left lo hi
  inside := Nat.max_le.mpr ⟨Nat.le_of_lt_succ lo.isLt, Nat.le_of_lt_succ hi.isLt⟩

def read {α : Type} (items : List α) (stretch : Stretch items.length) : List α :=
  let cells := items.toArray
  List.ofFn fun i : Fin (stretch.last - stretch.first) =>
    have hlast : stretch.last ≤ cells.size := stretch.inside
    cells[stretch.first + i.val]

end Stretch

inductive Sequence where
  | list (items : List Value)
  | text (chars : List Char)

namespace Sequence

def ofValue? : Value → Option Sequence
  | .list items => some (.list items)
  | .str s => some (.text s.toList)
  | _ => none

def size : Sequence → Nat
  | .list items => items.length
  | .text chars => chars.length

/-- The element at an index; one character is a text of its own. -/
def item : (s : Sequence) → Fin s.size → Value
  | .list items, i => items.get i
  | .text chars, i => .str (String.singleton (chars.get i))

/-- The elements of a stretch; characters are a text together. -/
def slice : (s : Sequence) → Stretch s.size → Value
  | .list items, stretch => .list (stretch.read items)
  | .text chars, stretch => .str (String.ofList (stretch.read chars))

end Sequence

namespace Select

/-! ## Where an index points -/

/-- Counts a negative index from the end. -/
def fromEnd (index : Int) (size : Nat) : Int :=
  if index < 0 then index + size else index

def clampIndex (index : Int) (size : Nat) (h : 0 < size) : Fin size :=
  ⟨min (fromEnd index size).toNat (size - 1), by omega⟩

def clampBound (index : Int) (size : Nat) : Fin (size + 1) :=
  ⟨min (fromEnd index size).toNat size, by omega⟩

/-! ## Values as indexes -/

/-- An index as a number. Floats are rounded with a warning. -/
def indexNumber (index : Value) (span : Span) : Checked Int := do
  match index with
  | .int i => return i.toInt
  | .bool b => return if b then 1 else 0
  | .float x =>
    match truncate? x.round with
    | none => throw (Fault.overflow span "as int")
    | some n => do
      Checked.warn .listIndexFloat span [index.display, (Number.int n).display]
      return n.toInt
  | other => throw (Fault.illegalValueType span other "as a list index")

def position (size : Nat) (index : Value) (span : Span) : Checked (Fin size) := do
  let raw ← indexNumber index span
  if h : 0 < size then do
    let place := clampIndex raw size h
    if (place.val : Int) ≠ fromEnd raw size then
      Checked.warn .listIndexOutOfRange span [toString raw, toString size, toString place.val]
    return place
  else throw (Fault.illegalValue span "Cannot index into an empty sequence")

def bound (size : Nat) (index : Value) (span : Span) :
    Checked (Fin (size + 1)) := do
  return clampBound (← indexNumber index span) size

end Select

namespace Eval

def selectOne (ev : NodeId → Eval Value) (s : Sequence) : IndexSpec → Eval Value
  | .single index => do
    let span ← spanOf index
    let i ← ev index
    return s.item (← checked (Select.position s.size i span))
  | .range first last => do
    let firstSpan ← spanOf first
    let lastSpan ← spanOf last
    let lo ← ev first
    let hi ← ev last
    let lo ← checked (Select.bound s.size lo firstSpan)
    let hi ← checked (Select.bound s.size hi lastSpan)
    return s.slice (.between lo hi)

/-- One selection gives what it takes, several give a list. -/
def evalIndex (ev : NodeId → Eval Value) (target : NodeId) (specs : Run IndexSpec) :
    Eval Value := do
  let span ← spanOf target
  let value ← ev target
  match Sequence.ofValue? value with
  | none => fault (Fault.illegalValueType span value "as an indexed value")
  | some s =>
    match ← (← entries specs Arena.specs).mapM (selectOne ev s) with
    | [only] => return only
    | selected => return .list selected

def evalMember (ev : NodeId → Eval Value) (target : NodeId) (name : Name) (span : Span) :
    Eval Value := do
  let value ← ev target
  match ← text name with
  | "type" => return .str value.typeName
  | "len" =>
    match value.length? with
    | some n => return .int (Int64.ofNat n)
    | none => fault (Fault.illegalValueType span value "with '.len'")
  | other => fault (Fault.unknownAttribute span value.typeName other)

end Eval
end ExprScript
