/-!
# Deep recursion

The parser and the evaluator descend once per level of nesting, and programs may nest deeply. Every
so many levels the work goes on in a task with a stack of its own, so that memory alone limits the
depth. What is computed stays the same.
-/
namespace ExprScript

def onFreshStack {α : Type} (f : Unit → α) : α :=
  (Task.spawn f Task.Priority.dedicated).get

@[simp] theorem onFreshStack_eq {α : Type} (f : Unit → α) : onFreshStack f = f () := rfl

def levelsPerStack : Nat := 65536

/-- Evaluates a level of a recursion that counts its levels down. -/
@[inline] def atLevel {α : Type} (level : Nat) (f : Unit → α) : α :=
  if level % levelsPerStack = 0 then onFreshStack f else f ()

@[simp] theorem atLevel_eq {α : Type} (level : Nat) (f : Unit → α) : atLevel level f = f () := by
  simp [atLevel]

/-- A number of levels, at least the given one, such that the first stack is used to the full. -/
def levelsFor (depth : Nat) : Nat :=
  levelsPerStack * (depth + 1) - 1

theorem le_levelsFor (depth : Nat) : depth ≤ levelsFor depth := by
  simp [levelsFor, levelsPerStack]
  omega

end ExprScript
