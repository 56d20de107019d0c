import ExprScript.Text.Printable

/-!
# Quoted text in messages

Messages quote a character or a text so that it can be seen whole: the quote and the backslash are
escaped, the usual controls have their letters, and what has no glyph of its own is written as its
code point.
-/
namespace ExprScript

def codePointEscape (c : Char) : String :=
  "\\u\x7b" ++ String.ofList (Nat.toDigits 16 c.toNat) ++ "\x7d"

def escapeInside (quote c : Char) : String :=
  if c = '\t' then "\\t"
  else if c = '\r' then "\\r"
  else if c = '\n' then "\\n"
  else if c.val = 0 then "\\0"
  else if c = '\\' then "\\\\"
  else if c = quote then String.ofList ['\\', quote]
  else if isExtender c || !isPrintable c then codePointEscape c
  else c.toString

def quoteWith (quote : Char) (text : String) : String :=
  quote.toString ++ text.foldl (fun out c => out ++ escapeInside quote c) "" ++ quote.toString

/-- A text in double quotes. -/
def quoteText (text : String) : String := quoteWith '"' text

def quoteChar (c : Char) : String := quoteWith '\'' c.toString

end ExprScript
