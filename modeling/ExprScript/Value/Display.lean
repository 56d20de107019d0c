import ExprScript.Decimal.Layout
import ExprScript.Value.Basic

/-!
# Values as text

The display form can be read back by the language: texts are quoted with the escapes that the lexer
undoes. What `print` shows is the same, except that a text on its own stands without quotes.
-/
namespace ExprScript

def valueEscape (c : Char) : List Char :=
  if c = '\n' then ['\\', 'n']
  else if c = '\t' then ['\\', 't']
  else if c = '\r' then ['\\', 'r']
  else if c = '"' then ['\\', '"']
  else if c = '\\' then ['\\', '\\']
  else [c]

def writeQuoted (text out : String) : String :=
  (text.foldl (fun out c => (valueEscape c).foldl String.push out) (out.push '"')).push '"'

def Number.display : Number → String
  | .int n => toString n.toInt
  | .float x => formatFloat .value x

namespace Value

mutual

def write : Value → String → String
  | .null, out => out ++ "null"
  | .int n, out => out ++ (Number.int n).display
  | .float x, out => out ++ (Number.float x).display
  | .bool b, out => out ++ (if b then "true" else "false")
  | .str text, out => writeQuoted text out
  | .list items, out => writeItems items true (out.push '[') |>.push ']'
  | .infinity dividend, out => out ++ (if dividend.isNegative then "-Infinity" else "Infinity")
  | .function f, out => out ++ s!"<function {f.display}>"
  | .builtin b, out => out ++ s!"<builtin {b.name}>"

/-- Items behind one another, with a comma before all but the first. -/
def writeItems : List Value → Bool → String → String
  | [], _, out => out
  | item :: items, first, out =>
    writeItems items false (write item (if first then out else out ++ ", "))

end

def display (value : Value) : String := value.write ""

def printed : Value → String
  | .str text => text
  | value => value.display

end Value
end ExprScript
