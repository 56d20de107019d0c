import ExprScript.Decimal.Layout
import ExprScript.Parser.Program
import ExprScript.Token.Lexer

/-!
# Listings of tokens and trees

Two aids for looking at how a source is read: one line per token, and a summary of the tree.
-/
namespace ExprScript

/-- The bytes that a span covers. -/
def Span.range (span : Span) : String :=
  s!"{span.start.offset}..{span.stop.offset}"

def AssignOp.word : AssignOp → String
  | none => "Plain"
  | some .add => "Add"
  | some .sub => "Sub"
  | some .mul => "Mul"
  | some .div => "Div"
  | some .floorDiv => "FloorDiv"
  | some .mod => "Mod"
  | some .pow => "Pow"

def TokenKind.listing (names : Interner) : TokenKind → String
  | .int n => s!"Int({n.toInt})"
  | .float x => s!"Float({formatFloat .listing x})"
  | .str text => s!"Str({quoteText (names.lookup text)})"
  | .ident name => s!"Ident({names.lookup name})"
  | .keyword k => s!"Keyword({k.word})"
  | .mark (.assign op false) => s!"Set({AssignOp.word op})"
  | .mark (.assign op true) => s!"SetYield({AssignOp.word op})"
  | .mark m => m.name

def listTokens (file : SourceFile) (names : Interner) : Except Diagnostic String :=
  let result := lex file names
  match result.outcome with
  | .error d => .error (d.withSource file)
  | .ok lexed =>
    let heading := s!"Tokens for '{file.name}' ({lexed.tokens.length} tokens):\n"
    .ok (lexed.tokens.foldl (fun out token =>
      out ++ s!"  {token.kind.listing result.names} @ {token.span.range}\n") heading)

def statementCount (arena : Arena) (root : NodeId) : Nat :=
  match arena.node? root with
  | some ⟨.block statements, _⟩ => statements.length
  | _ => 1

/-- The size of the tree, where it stands, and how many warnings it came with. -/
def summarizeTree (file : SourceFile) (names : Interner) :
    Except ParseBreakdown (Except Diagnostic String) := do
  let result := lex file names
  match result.outcome with
  | .error d => return .error (d.withSource file)
  | .ok lexed =>
    let parsed ← parse lexed.tokens result.names
    match parsed.error with
    | some d => return .error (d.withSource file)
    | none =>
      let span := parsed.arena.spanOf parsed.root
      return .ok (s!"Parse result for '{file.name}':\n" ++
        s!"  Statements: {statementCount parsed.arena parsed.root}\n" ++
        s!"  Expressions: {parsed.arena.size}\n" ++
        s!"  Root span: {span.range} (from {span.start.display})\n" ++
        s!"  Warnings: {parsed.warnings.length}\n")

end ExprScript
