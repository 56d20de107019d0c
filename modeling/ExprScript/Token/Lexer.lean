import ExprScript.Diagnostic.Basic
import ExprScript.Text.Quoted
import ExprScript.Token.Lexeme

/-!
# From text to tokens

The lexer takes lexeme after lexeme off the text, keeps the position, interns words and strings and
collects tokens, pragmas and warnings. A fault ends it without tokens; the names and warnings up to
there remain.
-/
namespace ExprScript

/-- A line of the program text that switches the showing of warnings on or off. -/
inductive Pragma where
  | log
  | nolog
  deriving DecidableEq, Inhabited

def Pragma.name : Pragma → String
  | .log => "log"
  | .nolog => "nolog"

def Pragma.ofName? (text : String) : Option Pragma :=
  [Pragma.log, .nolog].find? fun p => p.name = text

def LexFault.diagnostic (span : Span) : LexFault → Diagnostic
  | .illegalChar c => ⟨.illegalChar, span, [quoteChar c, span.start.display], [], none⟩
  | .loneEqual => ⟨.expectedChar, span, ["'==' (use '::' to assign)"], [], none⟩
  | .unfinishedAssign found =>
    ⟨.expectedAssignmentOperator, span, [(found.map quoteChar).getD "end of input"], [], none⟩
  | .intTooLarge digits =>
    ⟨.illegalValue, span, [s!"Integer literal {digits} does not fit in 64 bits"], [], none⟩

/-- The state of lexing: the text ahead, its position, and what was found so far. -/
structure Lexing where
  rest : List Char
  place : Position
  previous : Option TokenKind
  tokens : Array Token
  pragmas : Array Pragma
  warnings : Array Diagnostic
  names : Interner

namespace Lexing

/-- Adds a token in front of the rest of the text. -/
def emit (s : Lexing) (kind : TokenKind) (span : Span) : Lexing :=
  { s with previous := some kind, tokens := s.tokens.push ⟨kind, span⟩ }

def warn (s : Lexing) (code : Code) (span : Span) (args : List String) : Lexing :=
  { s with warnings := s.warnings.push ⟨code, span, args, [], none⟩ }

/-- Adds a token that carries an interned text. -/
def emitNamed (s : Lexing) (kind : Name → TokenKind) (text : String) (span : Span) : Lexing :=
  let (name, names) := s.names.intern text
  { s with names }.emit (kind name) span

/-- Takes a lexeme in. The characters that it took are given for the spans inside it. -/
def accept (s : Lexing) (lexeme : Lexeme) (taken : List Char) (span : Span) : Lexing :=
  match lexeme with
  | .skipped => s
  | .pragma name shown =>
    match Pragma.ofName? name with
    | some pragma => { s with pragmas := s.pragmas.push pragma }
    | none => s.warn .unknownGlobalOpt ⟨span.start, span.start.advanceAll (taken.take shown)⟩ [name]
  | .word text => s.emitNamed .ident text span
  | .str value delimiter closed =>
    let warned := if closed then s else s.warn .noStringEnd span [quoteChar delimiter]
    warned.emitNamed .str value span
  | .token kind => s.emit kind span
  | .fault _ => s

/-- Takes the next lexeme off the text, which begins with `c`, unless that is a fault. -/
def step (s : Lexing) (c : Char) (cs : List Char) : Lexing × Option Diagnostic :=
  let scan := Scan.next (Scan.hasAttributes s.previous) c cs
  let (taken, rest) := (c :: cs).splitAt scan.length
  let stop := s.place.advanceAll taken
  let span : Span := ⟨s.place, stop⟩
  let s := { s with rest, place := stop }
  match scan.lexeme with
  | .fault cause => (s, some (cause.diagnostic span))
  | lexeme => (s.accept lexeme taken span, none)

/-- Takes lexemes until the text is used up, of which there are at most as many as characters. -/
def run : Nat → Lexing → Lexing × Option Diagnostic
  | 0, s => (s, none)
  | steps + 1, s =>
    match s.rest with
    | [] => (s.emit (.mark .eof) (Span.point s.place), none)
    | c :: cs =>
      match s.step c cs with
      | (s, none) => run steps s
      | (s, some d) => (s, some d)

/-- The state before anything is taken off a text that begins at a place. -/
def ofText (text : List Char) (place : Position) (names : Interner) : Lexing :=
  ⟨text, place, none, #[], #[], #[], names⟩

end Lexing

/-- Tokens, with the end of the input last, and the pragmas among them. -/
structure Lexed where
  tokens : List Token
  pragmas : List Pragma

/-- What lexing leaves: the names known now, the warnings, and the tokens or the fault. -/
structure LexResult where
  names : Interner
  warnings : List Diagnostic
  outcome : Except Diagnostic Lexed

/-- What a run leaves that ends in a state, perhaps with a fault. -/
def LexResult.ofRun (s : Lexing) (fault : Option Diagnostic) : LexResult :=
  ⟨s.names, s.warnings.toList,
    match fault with
    | some d => .error d
    | none => .ok ⟨s.tokens.toList, s.pragmas.toList⟩⟩

/-- Lexes a text that begins at a place. -/
def lexText (text : List Char) (place : Position) (names : Interner) : LexResult :=
  let (s, fault) := Lexing.run (text.length + 1) (Lexing.ofText text place names)
  .ofRun s fault

def lexFrom (file : SourceFile) (start : Position) (names : Interner) : LexResult :=
  lexText (splitBytes start.offset file.text.toList).2 start names

def lex (file : SourceFile) (names : Interner) : LexResult :=
  lexFrom file Position.start names

end ExprScript
