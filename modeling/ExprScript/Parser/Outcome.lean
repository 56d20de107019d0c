import ExprScript.Parser.Basic

/-!
# Outcomes

A production says in the tag of its outcome whether it took a token. A failure without one is soft:
the caller may try something else or stop. Once a token is taken the production is committed, and a
later failure ends the parse. The tags are not measured. Every production sets its own, and a caller
passes the failure of a production on as it is or commits to it.
-/
namespace ExprScript

inductive ParseOutcome (α : Type) where
  | consumedOk (value : α)
  /-- Succeeded without taking a token, such as an optional part that is absent. -/
  | emptyOk (value : α)
  /-- Committed, then failed. -/
  | consumedErr (error : Diagnostic)
  /-- Nothing taken; the error names what the current token should have been. -/
  | emptyErr (error : Diagnostic)

/-- A production, or a part of one. It comes to an outcome and leaves a state, unless parsing breaks
down. -/
def Rule (α : Type) :=
  ParseContext → ParseState → Except ParseBreakdown (ParseOutcome α × ParseState)

namespace Rule

variable {α β σ : Type}

@[inline] def consumedOk (value : α) : Rule α := fun _ s => .ok (.consumedOk value, s)

@[inline] def emptyOk (value : α) : Rule α := fun _ s => .ok (.emptyOk value, s)

@[inline] def consumedErr (error : Diagnostic) : Rule α := fun _ s => .ok (.consumedErr error, s)

@[inline] def emptyErr (error : Diagnostic) : Rule α := fun _ s => .ok (.emptyErr error, s)

/-- Takes the value of a rule and goes on with it; a failure is returned as it is. -/
@[always_inline, inline]
def chain (r : Rule α) (f : α → Rule β) : Rule β := fun c s =>
  match r c s with
  | .ok (.consumedOk v, s) | .ok (.emptyOk v, s) => f v c s
  | .ok (.consumedErr d, s) => .ok (.consumedErr d, s)
  | .ok (.emptyErr d, s) => .ok (.emptyErr d, s)
  | .error why => .error why

@[always_inline] instance : Monad Rule where
  pure := emptyOk
  bind := chain

/-- A rule that the caller has committed to: any failure returns as one behind a token. -/
def require (r : Rule α) : Rule α := fun c s =>
  match r c s with
  | .ok (.emptyErr d, s) => .ok (.consumedErr d, s)
  | reply => reply

/-- The same for a plain result. -/
def commit (r : Rule (Except Diagnostic α)) : Rule α := do
  match ← r with
  | .ok value => return value
  | .error d => consumedErr d

/-- The outcome of a rule, for a caller that tells the tags apart. -/
def outcome (r : Rule α) : Rule (ParseOutcome α) := fun c s =>
  match r c s with
  | .ok (o, s) => .ok (.emptyOk o, s)
  | .error why => .error why

/-! ## Steps of the cursor -/

/-- A step that has no fault. Whether it took a token is for the rule around it to say. -/
@[inline] def step (p : Parser α) : Rule α := fun c s =>
  match p c s with
  | .done _ v s => .ok (.emptyOk v, s)
  | .failed _ (.fault d) s => .ok (.emptyErr d, s)
  | .failed _ (.tooLong count) _ => .error (.listTooLong count)
  | .failed _ .exhausted _ => .error .exhausted

@[always_inline] instance : MonadLift Parser Rule := ⟨step⟩

/-- A step that may have a fault, which has no tag yet. -/
def result (p : Parser α) : Rule (Except Diagnostic α) := fun c s =>
  match p c s with
  | .done _ v s => .ok (.emptyOk (.ok v), s)
  | .failed _ (.fault d) s => .ok (.emptyOk (.error d), s)
  | .failed _ (.tooLong count) _ => .error (.listTooLong count)
  | .failed _ .exhausted _ => .error .exhausted

def identifier (code : Code) : Rule (Except Diagnostic Name) := result (Parser.identifier code)

def expectCloser (bracket : Bracket) (opened : Span) (stopped : Option Diagnostic) :
    Rule (Except Diagnostic Span) := result (Parser.expectCloser bracket opened stopped)

/-- What was found at the current token instead of what a code names. -/
def found (code : Code) : Rule Diagnostic := do
  return ⟨code, ← Parser.currentSpan, [← Parser.describeCurrent], [], none⟩

def expected (what : String) : Rule Diagnostic := do
  let found ← Parser.describeCurrent
  return ⟨.expectedChar, ← Parser.currentSpan, [s!"{what}, found {found}"], [], none⟩

/-! ## Loops -/

/-- Repeats a step, which gives the next state or the result, at most so many times. -/
def loop (step : σ → Rule (σ ⊕ α)) : Nat → σ → Rule α
  | 0, _ => fun _ _ => .error .exhausted
  | steps + 1, v => fun c s =>
    match step v c s with
    | .ok (.consumedOk (.inl next), s) | .ok (.emptyOk (.inl next), s) => loop step steps next c s
    | .ok (.consumedOk (.inr value), s) | .ok (.emptyOk (.inr value), s) =>
      .ok (.emptyOk value, s)
    | .ok (.consumedErr d, s) => .ok (.consumedErr d, s)
    | .ok (.emptyErr d, s) => .ok (.emptyErr d, s)
    | .error why => .error why

/-- Repeats a step that takes at least one token whenever it wants to be repeated. -/
def repeating (step : σ → Rule (σ ⊕ α)) (start : σ) : Rule α := fun c s =>
  loop step (c.rounds + 1) start c s

@[inline] def withLoops (change : List (Option Name) → List (Option Name)) (r : Rule α) : Rule α :=
  fun c s => r { c with loops := change c.loops } s

end Rule
end ExprScript
