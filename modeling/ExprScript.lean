import ExprScript.Text.Position
import ExprScript.Text.Source
import ExprScript.Text.Blank
import ExprScript.Text.Printable
import ExprScript.Text.Quoted
import ExprScript.Names
import ExprScript.Names.Requests
import ExprScript.Diagnostic.Code
import ExprScript.Diagnostic.Docs
import ExprScript.Diagnostic.Basic
import ExprScript.Diagnostic.Terminal
import ExprScript.Diagnostic.Explain
import ExprScript.Decimal.Nearest
import ExprScript.Decimal.Shortest
import ExprScript.Decimal.Layout
import ExprScript.Types
import ExprScript.Token
import ExprScript.Token.Lexeme
import ExprScript.Token.Lexer
import ExprScript.Stack
import ExprScript.Tree.Arena
import ExprScript.Tree.Outline
import ExprScript.Parser.Basic
import ExprScript.Parser.Outcome
import ExprScript.Parser.Block
import ExprScript.Parser.Primary
import ExprScript.Parser.Postfix
import ExprScript.Parser.Operators
import ExprScript.Parser.Program
import ExprScript.Tree.Script
import ExprScript.Number.Int64
import ExprScript.Number.Remainder
import ExprScript.Number.Read
import ExprScript.Value.Basic
import ExprScript.Value.Equality
import ExprScript.Value.Display
import ExprScript.Value.Fault
import ExprScript.Value.Convert
import ExprScript.Value.Operators
import ExprScript.Scope
import ExprScript.CallStack
import ExprScript.Host.Console
import ExprScript.Host.Directory
import ExprScript.Host
import ExprScript.Machine
import ExprScript.Evaluation.Selection
import ExprScript.Evaluation.Arguments
import ExprScript.Evaluation.Program
import ExprScript.Evaluation.Builtins
import ExprScript.Evaluation.Calls
import ExprScript.Evaluation.Loops
import ExprScript.Evaluation
import ExprScript.Session
import ExprScript.Repl
import ExprScript.CommandLine.Arguments
import ExprScript.CommandLine.Listing
import ExprScript.CommandLine
import ExprScript.Main
import ExprScript.Proofs.Value.Checked
import ExprScript.Proofs.Value.Kinds
import ExprScript.Proofs.Value.Functions
import ExprScript.Proofs.Evaluation.Arguments
import ExprScript.Proofs.Text.Position
import ExprScript.Proofs.Text.Spans
import ExprScript.Proofs.Evaluation.Reports
import ExprScript.Proofs.Evaluation.Discipline
import ExprScript.Proofs.Evaluation.Simulation
import ExprScript.Proofs.Evaluation.Steps
import ExprScript.Proofs.Evaluation.Constructs
import ExprScript.Proofs.Evaluation.Loops
import ExprScript.Proofs.Evaluation.Calls
import ExprScript.Proofs.Evaluation.Congruence
import ExprScript.Proofs.Evaluation.Endings
import ExprScript.Proofs.Evaluation.Visits
import ExprScript.Proofs.Evaluation.Upkeep
import ExprScript.Proofs.Scopes
import ExprScript.Proofs.Evaluation.Soundness
import ExprScript.Proofs.Evaluation.Surroundings
import ExprScript.Proofs.Reach
import ExprScript.Proofs.Evaluation.Confinement
import ExprScript.Proofs.Evaluation.Depth
import ExprScript.Proofs.Evaluation.Returns
import ExprScript.Proofs.Evaluation.Shapes
import ExprScript.Proofs.Tree.Growth
import ExprScript.Proofs.Tree.Signals
import ExprScript.Proofs.Parser.Measured
import ExprScript.Proofs.Parser.Building
import ExprScript.Proofs.Parser.Storing
import ExprScript.Proofs.Parser.Balance
import ExprScript.Proofs.Parser.Nesting
import ExprScript.Proofs.Parser.Block
import ExprScript.Proofs.Parser.Primary
import ExprScript.Proofs.Parser.Postfix
import ExprScript.Proofs.Parser.Operators
import ExprScript.Proofs.Parser.Formed
import ExprScript.Proofs.Tree.Ownership
import ExprScript.Proofs.Tree.Syntax
import ExprScript.Proofs.Parser.Running
import ExprScript.Proofs.Parser.Progress
import ExprScript.Proofs.Parser.Termination
import ExprScript.Proofs.Parser.Tags
import ExprScript.Proofs.Parser.Rules
import ExprScript.Proofs.Parser.Keeping
import ExprScript.Proofs.Parser.Kept
import ExprScript.Proofs.Parser.Trees
import ExprScript.Proofs.Parser.Success
import ExprScript.Proofs.Parser.Reading
import ExprScript.Proofs.Parser.Readback
import ExprScript.Proofs.Parser.Sequences
import ExprScript.Proofs.Parser.Roundtrip
import ExprScript.Proofs.Evaluation.Parts
import ExprScript.Proofs.Evaluation.Signals
import ExprScript.Proofs.Evaluation.Contained
import ExprScript.Proofs.Token.Brackets
import ExprScript.Proofs.Token.Lexeme
import ExprScript.Proofs.Token.Run
import ExprScript.Proofs.Token.Lexer
import ExprScript.Proofs.Token.Spans
import ExprScript.Proofs.Token.Gaps
import ExprScript.Proofs.Session.History
import ExprScript.Proofs.Session.Soundness
import ExprScript.Proofs.Session.Invariants
import ExprScript.Proofs.Session.Signals
import ExprScript.Proofs.Session.Reading
import ExprScript.Proofs.Session.Continuation
import ExprScript.Proofs.Session.Contained
import ExprScript.Proofs.Session.Diagnostics
import ExprScript.Proofs.Session.Brackets
import ExprScript.Proofs.Names
import ExprScript.Proofs.Names.Requests
import ExprScript.Proofs.Tree.Literals
import ExprScript.Proofs.Token.Literals
import ExprScript.Proofs.Evaluation.Literals
import ExprScript.Proofs.Session.Constants
import ExprScript.Proofs.Session.Readback
import ExprScript.Proofs.Token.Spacing
import ExprScript.Proofs.Tree.Renumbering
import ExprScript.Proofs.Parser.Seam
import ExprScript.Proofs.Parser.SeamBlocks
import ExprScript.Proofs.Parser.SeamPlaces
import ExprScript.Proofs.Parser.Joining
import ExprScript.Proofs.Session.NestedRuns
import ExprScript.Proofs.Value.Arithmetic
import ExprScript.Proofs.Evaluation.Placement
import ExprScript.Proofs.Text.Lines
import ExprScript.Proofs.Diagnostic.Underline
import ExprScript.Proofs.Parser.Cursor
import ExprScript.Proofs.Assignment
import ExprScript.Proofs.Value.Conversions
import ExprScript.Proofs.Evaluation.Counting
import ExprScript.Proofs.Value.Repeated
import ExprScript.Proofs.Evaluation.Selection
import ExprScript.Proofs.Parser.Spanning
import ExprScript.Proofs.Parser.Spanned
import ExprScript.Proofs.Parser.Extents
import ExprScript.Proofs.Evaluation.Asking
import ExprScript.Proofs.Evaluation.Asked
import ExprScript.Proofs.Evaluation.Tracebacks
import ExprScript.Proofs.Session.Tracebacks
import ExprScript.Proofs.CommandLine
import ExprScript.Proofs.Value.Equality
import ExprScript.Proofs.Value.NumberText
import ExprScript.Proofs.Session.Rooted
