import ExprScript.Decimal.Layout
import ExprScript.Diagnostic.Basic
import ExprScript.Text.Quoted
import ExprScript.Token
import ExprScript.Tree.Arena

/-!
# Parsers

A parser reads tokens from the front of a list and builds nodes. Its reply says whether it took a
token. The parsers here are the steps of the cursor and of the arena, from which the productions of
the grammar are made. The token at the end of the input is never taken.
-/
namespace ExprScript

/-- What a parser may look up: the texts of names, the labels of the loops around it, innermost
first, and a bound for the rounds of its loops, which is the number of tokens. -/
structure ParseContext where
  names : Interner
  loops : List (Option Name)
  rounds : Nat

/-- The tokens ahead, the last token taken, and what was built and noticed so far. -/
structure ParseState where
  ahead : List Token
  previous : Option Span
  arena : Arena
  warnings : Array Diagnostic

inductive ParseFailure where
  | fault (diagnostic : Diagnostic)
  /-- A list is longer than a side table takes. -/
  | tooLong (count : Nat)
  /-- The rounds or levels of nesting provided for are used up. -/
  | exhausted

inductive ParseBreakdown where
  | listTooLong (count : Nat)
  | exhausted

def ParseBreakdown.message : ParseBreakdown → String
  | .listTooLong count => s!"list of {count} entries exceeds u16::MAX"
  | .exhausted => "nesting exhausted"

inductive ParseReply (α : Type) where
  | done (consumed : Bool) (value : α) (state : ParseState)
  | failed (consumed : Bool) (failure : ParseFailure) (state : ParseState)

def Parser (α : Type) := ParseContext → ParseState → ParseReply α

namespace Parser

variable {α β σ : Type}

@[always_inline, inline]
def pure (value : α) : Parser α := fun _ s => .done false value s

/-- One parser after another; the two together took a token if either did. -/
@[always_inline, inline]
def bind (p : Parser α) (f : α → Parser β) : Parser β := fun c s =>
  match p c s with
  | .done taken a s =>
    match f a c s with
    | .done more b s => .done (taken || more) b s
    | .failed more e s => .failed (taken || more) e s
  | .failed taken e s => .failed taken e s

@[always_inline] instance : Monad Parser where
  pure := Parser.pure
  bind := Parser.bind

@[inline] def fail (failure : ParseFailure) : Parser α := fun _ s => .failed false failure s

@[inline] def fault (code : Code) (span : Span) (args : List String) : Parser α :=
  fail (.fault ⟨code, span, args, [], none⟩)

/-- Repeats a step, which gives the next state or the result, at most `steps` times. The flag says
whether a token was taken before. -/
def loop (step : σ → Parser (σ ⊕ α)) : Nat → Bool → σ → Parser α
  | 0, taken, _ => fun _ s => .failed taken .exhausted s
  | steps + 1, taken, a => fun c s =>
    match step a c s with
    | .done more (.inl next) s => loop step steps (taken || more) next c s
    | .done more (.inr result) s => .done (taken || more) result s
    | .failed more e s => .failed (taken || more) e s

/-- Repeats a step that takes at least one token whenever it wants to be repeated. -/
def repeating (step : σ → Parser (σ ⊕ α)) (start : σ) : Parser α := fun c s =>
  loop step (c.rounds + 1) false start c s

/-! ## The tokens ahead -/

/-- The end of the input stands in for the tokens of an empty list. -/
def eofToken : Token := ⟨.mark .eof, {}⟩

@[inline] def context : Parser ParseContext := fun c s => .done false c s

@[inline] def current : Parser Token := fun _ s => .done false (s.ahead.headD eofToken) s

def currentSpan : Parser Span := do return (← current).span

/-- The kind of the token behind the current one. -/
def peek : Parser TokenKind := fun _ s =>
  match s.ahead with
  | _ :: token :: _ => .done false token.kind s
  | _ => .done false (.mark .eof) s

/-- Takes the current token, unless it is the end of the input. -/
def advance : Parser Token := fun _ s =>
  match s.ahead with
  | [] => .done false eofToken s
  | token :: rest =>
    if token.kind.isMark .eof then .done false token s
    else .done true token { s with ahead := rest, previous := some token.span }

def check (m : Mark) : Parser Bool := do return (← current).kind.isMark m

def checkKeyword (k : Keyword) : Parser Bool := do return (← current).kind.isKeyword k

def isAtEnd : Parser Bool := check .eof

def eat (m : Mark) : Parser Bool := do
  if ← check m then
    let _ ← advance
    return true
  else return false

def eatKeyword (k : Keyword) : Parser Bool := do
  if ← checkKeyword k then
    let _ ← advance
    return true
  else return false

def skipNewlines : Parser Unit :=
  repeating (fun _ => do
    if ← eat .newline then return .inl () else return .inr ()) ()

/-- A place among the tokens to come back to. -/
structure CursorPosition where
  ahead : List Token
  previous : Option Span

def position : Parser CursorPosition := fun _ s => .done false ⟨s.ahead, s.previous⟩ s

def setPosition (place : CursorPosition) : Parser Unit := fun _ s =>
  .done false () { s with ahead := place.ahead, previous := place.previous }

@[inline] def withLoops (change : List (Option Name) → List (Option Name)) (p : Parser α) :
    Parser α := fun c s => p { c with loops := change c.loops } s

/-- Whether the current token ends a statement or a group around it. -/
def atBoundary : Parser Bool := do
  match (← current).kind with
  | .mark .newline | .mark .eof | .mark .comma | .mark (.closing _) => return true
  | _ => return false

/-! ## Spans and nodes -/

/-- The span of the last token taken, or an empty one in front of the first token. -/
def previousSpan : Parser Span := fun _ s =>
  .done false (s.previous.getD (Span.point (s.ahead.headD eofToken).span.start)) s

def spanFrom (start : Span) : Parser Span := do return start.merge (← previousSpan)

def spanOf (id : NodeId) : Parser Span := fun _ s => .done false (s.arena.spanOf id) s

def node (expr : Expr) (span : Span) : Parser NodeId := fun _ s =>
  let (id, arena) := s.arena.push ⟨expr, span⟩
  .done false id { s with arena }

@[inline] def store (table : Arena → Array α) (put : Arena → Array α → Arena) (items : List α) :
    Parser (Run α) := fun _ s =>
  if items.length ≤ maxRunLength then
    let (run, entries) := appendRun (table s.arena) items
    .done false run { s with arena := put s.arena entries }
  else .failed false (.tooLong items.length) s

def storeList (items : List NodeId) : Parser (Run NodeId) :=
  store Arena.lists (fun a lists => { a with lists }) items

def storeSpecs (items : List IndexSpec) : Parser (Run IndexSpec) :=
  store Arena.specs (fun a specs => { a with specs }) items

def storeBranches (items : List Branch) : Parser (Run Branch) :=
  store Arena.branches (fun a branches => { a with branches }) items

def storeArms (items : List CaseArm) : Parser (Run CaseArm) :=
  store Arena.arms (fun a arms => { a with arms }) items

def storeParams (items : List Parameter) : Parser (Run Parameter) :=
  store Arena.params (fun a params => { a with params }) items

def storeArgs (items : List Argument) : Parser (Run Argument) :=
  store Arena.args (fun a args => { a with args }) items

/-! ## Messages -/

/-- A token as messages quote it. -/
def describe (names : Interner) : TokenKind → String
  | .int n => s!"integer {n.toInt}"
  | .float x => s!"float {formatFloat .plain x}"
  | .str text => s!"string {quoteText (names.lookup text)}"
  | .ident name => s!"identifier '{names.lookup name}'"
  | .keyword k => s!"keyword '{k.word}'"
  | .mark .newline => Mark.newline.name
  | .mark .eof => Mark.eof.name
  | .mark m => s!"'{m.name}'"

def describeCurrent : Parser String := do
  return describe (← context).names (← current).kind

def textOf (name : Name) : Parser String := do return (← context).names.lookup name

/-- Fails at the current token, naming what was found. -/
def failFound (code : Code) : Parser α := do
  fault code (← currentSpan) [← describeCurrent]

def failExpected (what : String) : Parser α := do
  let found ← describeCurrent
  fault .expectedChar (← currentSpan) [s!"{what}, found {found}"]

def unmatchedBracket (span : Span) (shown other : String) : Diagnostic :=
  ⟨.unmatchedBracket, span, [s!"'{shown}'", s!"'{other}'"], [], none⟩

def warn (code : Code) (span : Span) (args : List String) : Parser Unit := fun _ s =>
  .done false () { s with warnings := s.warnings.push ⟨code, span, args, [], none⟩ }

def identifier (code : Code) : Parser Name := do
  match (← current).kind with
  | .ident name =>
    let _ ← advance
    return name
  | _ => failFound code

/-- Takes the bracket that closes the one opened at `opened`. At the end of the input the opener is
at fault; before another token the reason why the contents stopped early, if there is one. -/
def expectCloser (bracket : Bracket) (opened : Span) (stopped : Option Diagnostic) :
    Parser Span := do
  skipNewlines
  if ← check (.closing bracket) then
    return (← advance).span
  else if ← isAtEnd then
    fail (.fault (unmatchedBracket opened bracket.opener bracket.closer))
  else
    match stopped with
    | some d => fail (.fault d)
    | none => failExpected s!"'{bracket.closer}'"

end Parser
end ExprScript
