import ExprScript.Names

/-!
# Requests to a table of names

A number has 32 bits. When all numbers are taken, a table refuses the texts that it does not know
and goes on answering all else. Within this limit a request for a name is what `Interner.intern` does.
-/
namespace ExprScript

def Name.limit : Nat := UInt32.size

namespace Interner

/-- No number is left for a new text, because so many texts have one. -/
structure Overflow where
  count : Nat
  deriving DecidableEq

def Overflow.message (fault : Overflow) : String := s!"too many distinct names ({fault.count})"

/-- The name of a text, unless the text is new and no number is left for it. -/
def intern? (table : Interner) (text : String) : Except Overflow (Name × Interner) :=
  let interned := table.intern text
  if interned.1.index < Name.limit then .ok interned else .error ⟨table.size⟩

/-- What a table can be asked for: the name of a text, the text of a name, the number of texts. -/
inductive Request
  | intern (text : String)
  | lookup (name : Name)
  | size
  deriving DecidableEq

inductive Answer
  | name (name : Name)
  | text (text : String)
  | count (count : Nat)
  | refused (fault : Overflow)
  deriving DecidableEq

/-- The answer to a request, and the table behind it. A refusal leaves the table as it is. -/
def answer (table : Interner) : Request → Answer × Interner
  | .intern text =>
    match table.intern? text with
    | .ok (name, next) => (.name name, next)
    | .error fault => (.refused fault, table)
  | .lookup name => (.text (table.lookup name), table)
  | .size => (.count table.size, table)

/-- The answers to requests one after another, and the table behind the last one. -/
def serve (table : Interner) : List Request → List Answer × Interner
  | [] => ([], table)
  | request :: requests =>
    let (first, next) := table.answer request
    let (answers, last) := next.serve requests
    (first :: answers, last)

end Interner
end ExprScript
