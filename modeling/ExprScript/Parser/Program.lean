import ExprScript.Parser.Operators
import ExprScript.Stack

/-!
# Programs

A program is a list of statements up to the end of the input. Its root is a block, also if parsing
failed; the root then holds what was read before a token that begins no statement, or nothing.
-/
namespace ExprScript

namespace Parser

/-- What is wrong with the token before which the statements of a program stopped. -/
def strayToken (stopped : Option Diagnostic) : Parser Diagnostic := do
  let token ← current
  match token.kind, stopped with
  | .mark (.closing bracket), _ =>
    return unmatchedBracket token.span bracket.closer bracket.opener
  | _, some d => return d
  | _, none => return ⟨.unexpectedToken, token.span, [← describeCurrent], [], none⟩

/-- Stores the root over everything from `start` to the last token taken. -/
def rootBlock (start : Span) (nodes : List NodeId) : Parser NodeId := do
  let list ← storeList nodes
  node (.block list) (← spanFrom start)

end Parser

namespace Rule

open ExprScript.Parser

/-- The grammar with its nesting resolved for a number of levels. Each level takes a token, so the
number of tokens is enough. -/
def grammar : Nat → Rules
  | 0, _ => fun _ _ => .error .exhausted
  | level + 1, place => fun c s => atLevel level fun _ => production (grammar level) place c s

/-- The statements of a program, and what is wrong with the token behind them. -/
def programBody (g : Rules) : Rule (List NodeId × Option Diagnostic) := do
  match ← statements g with
  | .ok body =>
    if ← isAtEnd then return (body.nodes, none)
    else return (body.nodes, some (← strayToken body.stopped))
  | .error d => return ([], some d)

end Rule

/-- What parsing leaves: the nodes, the root, the fault if there is one, and the warnings. -/
structure ParseResult where
  arena : Arena
  root : NodeId
  error : Option Diagnostic
  warnings : List Diagnostic

def finishParse (context : ParseContext) (start : Span) (nodes : List NodeId)
    (error : Option Diagnostic) (s : ParseState) : Except ParseBreakdown ParseResult :=
  match Parser.rootBlock start nodes context s with
  | .done _ root s => .ok ⟨s.arena, root, error, s.warnings.toList⟩
  | .failed _ (.tooLong count) _ => .error (.listTooLong count)
  | .failed _ _ _ => .error .exhausted

/-- Parses a token list that ends with the end of the input. -/
def parse (tokens : List Token) (names : Interner) : Except ParseBreakdown ParseResult :=
  let context : ParseContext := ⟨names, [], tokens.length⟩
  let start := (tokens.headD Parser.eofToken).span
  let g := Rule.grammar (levelsFor (tokens.length + 1))
  match Rule.programBody g context ⟨tokens, none, Arena.empty, #[]⟩ with
  | .ok (.consumedOk (nodes, error), s) | .ok (.emptyOk (nodes, error), s) =>
    finishParse context start nodes error s
  | .ok (.consumedErr d, s) | .ok (.emptyErr d, s) => finishParse context start [] (some d) s
  | .error why => .error why

end ExprScript
