import ExprScript.Names
import ExprScript.Text.Position
import ExprScript.Types

/-!
# Tokens

Literals carry their values, identifiers and strings their interned names. All other tokens are
marks with a fixed spelling, the line break and the end of the input among them.
-/
namespace ExprScript

inductive Keyword where
  | and
  | or
  | not
  | ifWord
  | elifWord
  | elseWord
  | caseWord
  | option
  | default
  | iterate
  | toWord
  | step
  | whileWord
  | defWord
  | returnWord
  | continueWord
  | breakWord
  | asWord
  | int
  | float
  | bool
  | list
  | str
  | auto
  deriving DecidableEq, Inhabited

namespace Keyword

def word : Keyword → String
  | .and => "and"
  | .or => "or"
  | .not => "not"
  | .ifWord => "if"
  | .elifWord => "elif"
  | .elseWord => "else"
  | .caseWord => "case"
  | .option => "option"
  | .default => "default"
  | .iterate => "iterate"
  | .toWord => "to"
  | .step => "step"
  | .whileWord => "while"
  | .defWord => "def"
  | .returnWord => "return"
  | .continueWord => "continue"
  | .breakWord => "break"
  | .asWord => "as"
  | .int => "int"
  | .float => "float"
  | .bool => "bool"
  | .list => "list"
  | .str => "str"
  | .auto => "auto"

def all : List Keyword :=
  [.and, .or, .not, .ifWord, .elifWord, .elseWord, .caseWord, .option, .default, .iterate, .toWord,
    .step, .whileWord, .defWord, .returnWord, .continueWord, .breakWord, .asWord, .int, .float,
    .bool, .list, .str, .auto]

theorem mem_all (k : Keyword) : k ∈ all := by
  cases k <;> decide

def ofWord? (text : String) : Option Keyword :=
  all.find? fun k => k.word = text

def valueType? : Keyword → Option ValueType
  | .int => some .int
  | .float => some .float
  | .bool => some .bool
  | .str => some .str
  | .list => some .list
  | _ => none

def declaredType? : Keyword → Option DeclaredType
  | .auto => some .auto
  | k => k.valueType?.map .typed

end Keyword

inductive Bracket where
  | paren
  | brace
  | square
  deriving DecidableEq, Inhabited

def Bracket.opener : Bracket → String
  | .paren => "("
  | .brace => "\x7b"
  | .square => "["

def Bracket.closer : Bracket → String
  | .paren => ")"
  | .brace => "\x7d"
  | .square => "]"

/-- Tokens with a fixed spelling. -/
inductive Mark where
  | arith (op : ArithOp)
  | equal
  | notEqual
  | order (op : OrderOp)
  | not
  | assign (op : AssignOp) (yields : Bool)
  | colon
  | question
  | comma
  | dot
  | atSign
  | opening (bracket : Bracket)
  | closing (bracket : Bracket)
  | newline
  | eof
  deriving DecidableEq, Inhabited

/-- The spelling, or a description where there is none to show. -/
def Mark.name : Mark → String
  | .arith op => op.symbol
  | .equal => "=="
  | .notEqual => "!="
  | .order op => op.symbol
  | .not => "!"
  | .assign op false => op.setSymbol
  | .assign op true => op.yieldSymbol
  | .colon => ":"
  | .question => "?"
  | .comma => ","
  | .dot => "."
  | .atSign => "@"
  | .opening bracket => bracket.opener
  | .closing bracket => bracket.closer
  | .newline => "newline"
  | .eof => "end of input"

inductive TokenKind where
  | int (value : Int64)
  | float (value : Float)
  | str (text : Name)
  | ident (name : Name)
  | keyword (word : Keyword)
  | mark (mark : Mark)
  deriving Inhabited

namespace TokenKind

def mark? : TokenKind → Option Mark
  | .mark m => some m
  | _ => none

def isMark (kind : TokenKind) (m : Mark) : Bool :=
  kind.mark? = some m

def isKeyword (kind : TokenKind) (k : Keyword) : Bool :=
  match kind with
  | .keyword word => word = k
  | _ => false

/-- What the token adds to the number of open brackets. -/
def depthChange : TokenKind → Int
  | .mark (.opening _) => 1
  | .mark (.closing _) => -1
  | _ => 0

end TokenKind

structure Token where
  kind : TokenKind
  span : Span
  deriving Inhabited

/-- How many brackets of a token list are open, closers without an opener counting down. -/
def bracketDepth (tokens : List Token) : Int :=
  tokens.foldl (fun depth token => depth + token.kind.depthChange) 0

def withoutEof (tokens : List Token) : List Token :=
  match tokens.getLast? with
  | some token => if token.kind.isMark .eof then tokens.dropLast else tokens
  | none => tokens

end ExprScript
