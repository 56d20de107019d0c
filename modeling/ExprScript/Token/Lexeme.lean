import ExprScript.Decimal.Nearest
import ExprScript.Token

/-!
# Lexemes

A lexeme is the next piece of a text: blanks, a comment, a pragma, a token or a fault. Scanning says
what the piece is and how many characters it takes, and knows nothing of positions; it depends on
the characters ahead and on the token before, which decides whether a point belongs to a number.
-/
namespace ExprScript

inductive LexFault where
  | illegalChar (c : Char)
  | loneEqual
  | unfinishedAssign (found : Option Char)
  | intTooLarge (digits : String)
  deriving DecidableEq

inductive Lexeme where
  /-- Blanks and comments. -/
  | skipped
  /-- A pragma line; the first `shown` characters are its sign and its name. -/
  | pragma (name : String) (shown : Nat)
  /-- A word that is no keyword. -/
  | word (text : String)
  /-- A string after its escapes; an open one ends with its line. -/
  | str (value : String) (delimiter : Char) (closed : Bool)
  | token (kind : TokenKind)
  | fault (cause : LexFault)

/-- A lexeme with the number of characters it takes. -/
structure Scan where
  lexeme : Lexeme
  length : Nat

namespace Scan

def mark (m : Mark) (length : Nat) : Scan :=
  ⟨.token (.mark m), length⟩

def isWordChar (c : Char) : Bool :=
  c.isAlphanum || c = '_'

def isWordStart (c : Char) : Bool :=
  c.isAlpha || c = '_'

def isTrivia (c : Char) : Bool :=
  c = ' ' || c = '\t' || c = '\r'

def word (cs : List Char) : Scan :=
  let text := cs.takeWhile isWordChar
  let name := String.ofList text
  match Keyword.ofWord? name with
  | some k => ⟨.token (.keyword k), text.length⟩
  | none => ⟨.word name, text.length⟩

/-- Decimal digits with at most one point, which makes the number a float. -/
def number (cs : List Char) : Scan :=
  let whole := cs.takeWhile Char.isDigit
  match cs.dropWhile Char.isDigit with
  | '.' :: rest =>
    let fraction := rest.takeWhile Char.isDigit
    ⟨.token (.float (readFixed whole fraction)), whole.length + 1 + fraction.length⟩
  | _ =>
    let value := valueUpTo 0x8000000000000000 whole
    if value < 0x8000000000000000 then ⟨.token (.int (Int64.ofNat value)), whole.length⟩
    else ⟨.fault (.intTooLarge (String.ofList whole)), whole.length⟩

/-- Whether a point behind this token asks for an attribute. -/
def hasAttributes : Option TokenKind → Bool
  | some (.ident _) => true
  | some (.mark (.closing .paren)) => true
  | some (.mark (.closing .square)) => true
  | _ => false

/-- A point: the start of a fraction if a digit follows and what is before it has no attributes. -/
def dot (attributed : Bool) (cs : List Char) : Scan :=
  let digitFollows :=
    match cs with
    | _ :: c :: _ => c.isDigit
    | _ => false
  if !attributed && digitFollows then number cs else mark .dot 1

def escaped (c : Char) : Char :=
  if c = 'n' then '\n' else if c = 't' then '\t' else if c = 'r' then '\r' else c

/-- The inside of a string: the value so far in reverse, and the number of characters so far. A
backslash at the end of the line stands for itself. -/
def strBody (delimiter : Char) : List Char → List Char → Nat → Scan
  | [], value, length => ⟨.str (String.ofList value.reverse) delimiter false, length⟩
  | c :: cs, value, length =>
    if c = '\n' then ⟨.str (String.ofList value.reverse) delimiter false, length⟩
    else if c = delimiter then ⟨.str (String.ofList value.reverse) delimiter true, length + 1⟩
    else if c = '\\' then
      match cs with
      | [] => ⟨.str (String.ofList ('\\' :: value).reverse) delimiter false, length + 1⟩
      | e :: rest =>
        if e = '\n' then
          ⟨.str (String.ofList ('\\' :: value).reverse) delimiter false, length + 1⟩
        else strBody delimiter rest (escaped e :: value) (length + 2)
    else strBody delimiter cs (c :: value) (length + 1)

/-- What follows a `#`: a comment to the end of the line, a pragma, or a comment to the next `#`. -/
def hash : List Char → Scan
  | '#' :: rest => ⟨.skipped, 2 + (rest.takeWhile (· ≠ '\n')).length⟩
  | '!' :: rest =>
    let name := rest.takeWhile isWordChar
    ⟨.pragma (String.ofList name) (2 + name.length), 2 + (rest.takeWhile (· ≠ '\n')).length⟩
  | rest =>
    let comment := (rest.takeWhile (· ≠ '#')).length
    ⟨.skipped, 1 + comment + (if (rest.drop comment).isEmpty then 0 else 1)⟩

/-- A mark of one character, or of two where `second` follows. -/
def pair (one two : Mark) (second : Char) : List Char → Scan
  | c :: _ => if c = second then mark two 2 else mark one 1
  | [] => mark one 1

/-- The end of a compound assignment whose first `length` characters are read. A colon before a sign
without an ending stays a colon, so that `c ? a :-1` has a negative second branch. -/
def assignEnd (op : ArithOp) (length : Nat) : List Char → Scan
  | ':' :: _ => mark (.assign (some op) false) (length + 1)
  | '>' :: _ => mark (.assign (some op) true) (length + 1)
  | rest =>
    if op = .add ∨ op = .sub then mark .colon 1
    else
      match rest with
      | [] => ⟨.fault (.unfinishedAssign none), length⟩
      | c :: _ => ⟨.fault (.unfinishedAssign (some c)), length + 1⟩

def colon : List Char → Scan
  | ':' :: _ => mark (.assign none false) 2
  | '>' :: _ => mark (.assign none true) 2
  | '+' :: rest => assignEnd .add 2 rest
  | '-' :: rest => assignEnd .sub 2 rest
  | '%' :: rest => assignEnd .mod 2 rest
  | '*' :: '*' :: rest => assignEnd .pow 3 rest
  | '*' :: rest => assignEnd .mul 2 rest
  | '/' :: '/' :: rest => assignEnd .floorDiv 3 rest
  | '/' :: rest => assignEnd .div 2 rest
  | _ => mark .colon 1

/-- The marks of one character that begin nothing longer. -/
def singleMark? (c : Char) : Option Mark :=
  if c = '\n' ∨ c = ';' then some .newline
  else if c = '+' then some (.arith .add)
  else if c = '-' then some (.arith .sub)
  else if c = '%' then some (.arith .mod)
  else if c = '?' then some .question
  else if c = ',' then some .comma
  else if c = '@' then some .atSign
  else if c = '(' then some (.opening .paren)
  else if c = ')' then some (.closing .paren)
  else if c = '\x7b' then some (.opening .brace)
  else if c = '\x7d' then some (.closing .brace)
  else if c = '[' then some (.opening .square)
  else if c = ']' then some (.closing .square)
  else none

/-- The lexeme at the start of `c :: cs`, given whether the token before has attributes. -/
def next (attributed : Bool) (c : Char) (cs : List Char) : Scan :=
  if isTrivia c then ⟨.skipped, ((c :: cs).takeWhile isTrivia).length⟩
  else if isWordStart c then word (c :: cs)
  else if c.isDigit then number (c :: cs)
  else if c = '.' then dot attributed (c :: cs)
  else if c = '"' ∨ c = '\'' then strBody c cs [] 1
  else if c = '#' then hash cs
  else if c = '!' then pair .not .notEqual '=' cs
  else if c = '=' then
    match cs with
    | '=' :: _ => mark .equal 2
    | _ => ⟨.fault .loneEqual, 1⟩
  else if c = '<' then pair (.order .lt) (.order .le) '=' cs
  else if c = '>' then pair (.order .gt) (.order .ge) '=' cs
  else if c = '*' then pair (.arith .mul) (.arith .pow) '*' cs
  else if c = '/' then pair (.arith .div) (.arith .floorDiv) '/' cs
  else if c = ':' then colon cs
  else
    match singleMark? c with
    | some m => mark m 1
    | none => ⟨.fault (.illegalChar c), 1⟩

end Scan
end ExprScript
