import Std.Data.HashMap

/-!
# Interned names

Identifiers and string literals are replaced by numbers, so that later stages compare names by
comparing numbers. The numbers are handed out in order of first appearance; the empty text has
number zero.
-/
namespace ExprScript

structure Name where
  index : Nat
  deriving DecidableEq, Hashable, Inhabited

/-- The texts seen so far, and for each its number. -/
structure Interner where
  texts : Array String := #[""]
  numbers : Std.HashMap String Nat := (∅ : Std.HashMap String Nat).insert "" 0
  deriving Inhabited

namespace Interner

def empty : Interner := {}

/-- The name of a text, which is new if the text is. -/
def intern (table : Interner) (text : String) : Name × Interner :=
  match table.numbers[text]? with
  | some n => (⟨n⟩, table)
  | none =>
    let n := table.texts.size
    (⟨n⟩, ⟨table.texts.push text, table.numbers.insert text n⟩)

/-- The text of a name; a name that was never handed out has the empty text. -/
def lookup (table : Interner) (name : Name) : String :=
  table.texts[name.index]?.getD ""

def size (table : Interner) : Nat := table.texts.size

end Interner
end ExprScript
