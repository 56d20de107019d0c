import ExprScript.Value.Fault

/-!
# The call stack

The calls in progress, innermost first. A stack may have a limit, and a call beyond it is a fault at
the place of the call.
-/
namespace ExprScript

structure CallStack where
  frames : List TraceFrame := []
  /-- How many calls may be in progress at once, if there is a limit. -/
  limit : Option Nat := none
  /-- The number of frames, kept because every call asks for it. -/
  depth : Nat := 0
  depth_eq : depth = frames.length := by rfl

namespace CallStack

def empty (limit : Option Nat) : CallStack := { limit }

/-- One more call, unless the limit is reached. -/
def push (stack : CallStack) (frame : TraceFrame) : Except Diagnostic CallStack :=
  match stack.limit with
  | some limit =>
    if limit ≤ stack.depth then
      .error (Fault.illegalValue frame.callSpan
        s!"Calling '{frame.name}' exceeds the maximum call depth of {limit}")
    else .ok (grown stack frame)
  | none => .ok (grown stack frame)
where
  grown (stack : CallStack) (frame : TraceFrame) : CallStack :=
    { stack with
      frames := frame :: stack.frames
      depth := stack.depth + 1
      depth_eq := by simp [stack.depth_eq] }

def pop (stack : CallStack) : CallStack :=
  { stack with
    frames := stack.frames.tail
    depth := stack.depth - 1
    depth_eq := by simp [stack.depth_eq] }

/-- Leaves the calls in progress on a diagnostic, unless it carries those of a deeper place. -/
def attach (stack : CallStack) (d : Diagnostic) : Diagnostic := d.withFrames stack.frames

/-- A call that is let in lies on top, within the limit. -/
theorem frames_of_push {stack grown : CallStack} {frame : TraceFrame}
    (h : stack.push frame = .ok grown) :
    grown.frames = frame :: stack.frames ∧ ∀ limit, stack.limit = some limit →
      grown.frames.length ≤ limit := by
  unfold push at h
  split at h
  · rename_i limit hlimit
    split at h
    · cases h
    · rename_i hroom
      cases h
      refine ⟨rfl, fun bound hbound => ?_⟩
      have hsame : limit = bound := by simpa [hlimit] using hbound
      have hdepth := stack.depth_eq
      simp only [push.grown, List.length_cons]
      omega
  · rename_i hlimit
    cases h
    exact ⟨rfl, fun bound hbound => by simp [hlimit] at hbound⟩

theorem pop_of_push {stack grown : CallStack} {frame : TraceFrame}
    (h : stack.push frame = .ok grown) : grown.pop = stack := by
  obtain ⟨frames, limit, depth, rfl⟩ := stack
  unfold push at h
  split at h
  · split at h
    · cases h
    · cases h
      simp [push.grown, pop]
  · cases h
    simp [push.grown, pop]

end CallStack
end ExprScript
