import ExprScript.Text.Position

/-!
# Source texts

A source is a named text. Its lines are the pieces between line feeds; `positionAt` finds the line
and the column of a byte offset in the table of where lines begin, and `snippet` cuts out what a
span covers.
-/
namespace ExprScript

def byteLength (cs : List Char) : Nat :=
  cs.foldl (fun n c => n + c.utf8Size) 0

/-- How many characters lie wholly in the first `bytes` bytes, on top of `count`. -/
def countWithin (bytes : Nat) : List Char → Nat → Nat
  | [], count => count
  | c :: cs, count =>
    if c.utf8Size ≤ bytes then countWithin (bytes - c.utf8Size) cs (count + 1) else count

/-- The characters that lie wholly in the first `bytes` bytes, and those behind them. -/
def splitBytes (bytes : Nat) (cs : List Char) : List Char × List Char :=
  cs.splitAt (countWithin bytes cs 0)

theorem splitBytes_append (bytes : Nat) (cs : List Char) :
    (splitBytes bytes cs).1 ++ (splitBytes bytes cs).2 = cs := by
  simp [splitBytes]

/-- Puts one more character in front of the first line. -/
def consLines (c : Char) : List (List Char) → List (List Char)
  | [] => [[c]]
  | l :: ls => if c = '\n' then [] :: l :: ls else (c :: l) :: ls

/-- The pieces between line feeds. There is one more than there are line feeds. -/
def splitLines (cs : List Char) : List (List Char) :=
  cs.foldr consLines [[]]

theorem length_splitLines (cs : List Char) :
    (splitLines cs).length = cs.count '\n' + 1 := by
  induction cs with
  | nil => rfl
  | cons c cs ih =>
    cases hs : splitLines cs with
    | nil => simp [hs] at ih
    | cons l ls =>
      have : splitLines (c :: cs) = consLines c (l :: ls) := by rw [← hs]; rfl
      rw [this]
      by_cases h : c = '\n' <;> simp_all [consLines]

/-- The byte offsets behind the line feeds of characters that begin at an offset. -/
def lineStartsFrom (offset : Nat) : List Char → List Nat
  | [] => []
  | c :: cs =>
    let behind := offset + c.utf8Size
    if c = '\n' then behind :: lineStartsFrom behind cs else lineStartsFrom behind cs

/-- Where a number stands in a part of an ascending table, or else before which place it is
missing. -/
def binarySearch (table : Array Nat) (x lo hi : Nat) (hhi : hi ≤ table.size) : Except Nat Nat :=
  if hlo : lo < hi then
    let mid := lo + (hi - lo) / 2
    have hmid : mid < table.size := by omega
    if table[mid] = x then .ok mid
    else if table[mid] < x then binarySearch table x (mid + 1) hi hhi
    else binarySearch table x lo mid (Nat.le_of_lt hmid)
  else .error lo
termination_by hi - lo

structure SourceFile where
  name : String
  text : String
  deriving DecidableEq, Inhabited

namespace SourceFile

/-- The byte offsets at which the lines begin. -/
def lineStarts (file : SourceFile) : Array Nat :=
  (0 :: lineStartsFrom 0 file.text.toList).toArray

/-- The bytes `first` up to `last`, or nothing where these are no boundaries of characters of the
text or stand in the wrong order. -/
def slice (file : SourceFile) (first last : Nat) : Option String :=
  let (before, rest) := splitBytes first file.text.toList
  let inside := (splitBytes (last - first) rest).1
  if first ≤ last ∧ byteLength before = first ∧ byteLength inside = last - first then
    some (String.ofList inside)
  else none

def line (file : SourceFile) (index : Nat) : Option String := do
  let starts := file.lineStarts
  let first ← starts[index]?
  let last := (starts[index + 1]?).elim file.text.utf8ByteSize (· - 1)
  file.slice first last

def lineAt (file : SourceFile) (offset : Nat) : Nat :=
  let starts := file.lineStarts
  match binarySearch starts offset 0 starts.size (Nat.le_refl _) with
  | .ok line => line
  | .error next => next - 1

/-- The place of a byte offset, or the end of the text if that comes first. An offset inside of a
character is moved to its beginning. -/
def positionAt (file : SourceFile) (offset : Nat) : Position :=
  let offset := byteLength (splitBytes offset file.text.toList).1
  let line := file.lineAt offset
  let lineStart := (file.lineStarts[line]?).getD 0
  ⟨offset, line, ((file.slice lineStart offset).getD "").length⟩

def snippet (file : SourceFile) (span : Span) : String :=
  (file.slice span.start.offset span.stop.offset).getD ""

end SourceFile
end ExprScript
