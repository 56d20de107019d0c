/-!
# Positions and spans in a text

A position is a byte offset together with the zero-based line and column it falls on; columns count
characters. A span is a pair of positions, so that no later stage has to search the text again.
-/
namespace ExprScript

/-- A place in a text, between two characters. -/
structure Position where
  offset : Nat := 0
  line : Nat := 0
  column : Nat := 0
  deriving DecidableEq, Inhabited

namespace Position

def start : Position := ⟨0, 0, 0⟩

/-- The place behind one more character: a line feed opens a line, all else takes one column. -/
def advance (p : Position) (c : Char) : Position :=
  if c = '\n' then ⟨p.offset + c.utf8Size, p.line + 1, 0⟩
  else ⟨p.offset + c.utf8Size, p.line, p.column + 1⟩

/-- The place behind all of `cs`. -/
def advanceAll (p : Position) (cs : List Char) : Position :=
  cs.foldl advance p

@[simp] theorem advanceAll_nil (p : Position) : p.advanceAll [] = p := rfl

@[simp] theorem advanceAll_cons (p : Position) (c : Char) (cs : List Char) :
    p.advanceAll (c :: cs) = (p.advance c).advanceAll cs := rfl

theorem advanceAll_append (p : Position) (xs ys : List Char) :
    p.advanceAll (xs ++ ys) = (p.advanceAll xs).advanceAll ys := by
  simp [advanceAll]

@[simp] theorem offset_advance (p : Position) (c : Char) :
    (p.advance c).offset = p.offset + c.utf8Size := by
  unfold advance
  split <;> rfl

/-- The text shown to a reader counts lines and columns from one. -/
def display (p : Position) : String :=
  s!"{p.line + 1}:{p.column + 1}"

end Position

/-- A stretch of a text. -/
structure Span where
  start : Position := Position.start
  stop : Position := Position.start
  deriving DecidableEq, Inhabited

namespace Span

def point (p : Position) : Span := ⟨p, p⟩

/-- The least span that covers both; of two ends at the same offset the first span's is kept. -/
def merge (a b : Span) : Span :=
  ⟨if b.start.offset < a.start.offset then b.start else a.start,
    if a.stop.offset < b.stop.offset then b.stop else a.stop⟩

end Span
end ExprScript
