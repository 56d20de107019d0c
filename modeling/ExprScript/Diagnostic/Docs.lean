import ExprScript.Diagnostic.Code

/-!
# Explanations of the codes

For every code a short page of markdown: what went wrong, an example and, where there is one, a
way to mend it.
-/
namespace ExprScript

def wholeLines (lines : List String) : String :=
  String.join (lines.map (· ++ "\n"))

def Code.docs : Code → String
  | .expectedChar => wholeLines [
      "# Expected Character",
      "",
      "A specific character was required here but something else was found. This happens for a lone `=` (comparison is written `==`) and for a ternary `?` with no `:` where one is required.",
      "",
      "## Example",
      "",
      "```",
      "int a = 3",
      "      ^",
      "```",
      "",
      "## Solution",
      "",
      "Assignment uses `::`, comparison uses `==`:",
      "",
      "```",
      "int a :: 3",
      "print(a == 3)",
      "```"]
  | .expectedExpr => wholeLines [
      "# Expected Expression",
      "",
      "An expression was required but the input ended or a token that cannot start an expression was found.",
      "",
      "## Example",
      "",
      "```",
      "auto example",
      "            ^",
      "```",
      "",
      "## Solution",
      "",
      "`auto` variables take their type from their initial value, so they must be initialised:",
      "",
      "```",
      "auto example :: 1",
      "```"]
  | .expectedType => wholeLines [
      "# Expected Type",
      "",
      "A type keyword (`int`, `float`, `bool`, `str`, `list`) was required, for example after `as`.",
      "",
      "## Example",
      "",
      "```",
      "print(1.0 as )",
      "             ^",
      "```",
      "",
      "## Solution",
      "",
      "Name the type to cast to:",
      "",
      "```",
      "print(1.0 as int)",
      "```"]
  | .expectedIdentifier => wholeLines [
      "# Expected Identifier",
      "",
      "A name was required, for example after a type keyword in a declaration, after `::` in an `iterate` binding, or for a function parameter.",
      "",
      "## Example",
      "",
      "```",
      "int :: 3",
      "    ^^",
      "```",
      "",
      "## Solution",
      "",
      "Give the variable a name:",
      "",
      "```",
      "int three :: 3",
      "```"]
  | .expectedLoopIdentifier => wholeLines [
      "# Expected Loop Identifier",
      "",
      "`@` names a loop and must be followed by an identifier.",
      "",
      "## Example",
      "",
      "```",
      "@ iterate 10 \x7b \x7d",
      " ^",
      "```",
      "",
      "## Solution",
      "",
      "```",
      "@outer iterate 10 \x7b \x7d",
      "```"]
  | .expectedAssignmentOperator => wholeLines [
      "# Expected Assignment Operator",
      "",
      "A compound assignment operator was started with `:` and an operator but not terminated with `:` or `>`, or a declaration was not followed by `::` or `:>`.",
      "",
      "## Example",
      "",
      "```",
      "a :* 2",
      "  ^^",
      "```",
      "",
      "## Solution",
      "",
      "Compound assignments are written `:<op>:` or `:<op>>`:",
      "",
      "```",
      "a :*: 2",
      "```"]
  | .expectedAttribute => wholeLines [
      "# Expected Attribute",
      "",
      "A `.` must be followed by an attribute name.",
      "",
      "## Example",
      "",
      "```",
      "list items :: [1, 2]",
      "print(items.)",
      "            ^",
      "```",
      "",
      "## Solution",
      "",
      "```",
      "print(items.len)",
      "```"]
  | .illegalChar => wholeLines [
      "# Illegal Character",
      "",
      "The source contains a character that is not part of the language outside of a string literal.",
      "",
      "## Example",
      "",
      "```",
      "int a :: 5 $ 3",
      "           ^",
      "```",
      "",
      "## Solution",
      "",
      "Remove the character, or put it inside a string literal."]
  | .illegalValueType => wholeLines [
      "# Illegal Value Type",
      "",
      "A value was used somewhere its type has no meaning, for example a string or list as a list index.",
      "",
      "## Example",
      "",
      "```",
      "list fib :: [1, 1, 2, 3]",
      "print(fib[\"0\"])",
      "          ^^^",
      "```",
      "",
      "## Solution",
      "",
      "Index lists with numbers:",
      "",
      "```",
      "print(fib[0])",
      "```"]
  | .unexpectedToken => wholeLines [
      "# Unexpected Token",
      "",
      "A statement was complete but more tokens followed on the same line.",
      "",
      "## Example",
      "",
      "```",
      "(1 + 2) 3",
      "        ^",
      "```",
      "",
      "## Solution",
      "",
      "Separate statements with a newline or `;`."]
  | .unmatchedBracket => wholeLines [
      "# Unmatched Bracket",
      "",
      "A bracket was opened and never closed, or closed without being opened.",
      "",
      "## Example",
      "",
      "```",
      "list example :: [(2 ** 5]",
      "                 ^",
      "```",
      "",
      "## Solution",
      "",
      "```",
      "list example :: [(2 ** 5)]",
      "```"]
  | .illegalCastType => wholeLines [
      "# Illegal Cast Type",
      "",
      "A value cannot be converted to the requested type, for example a string that is not a number cast to `int`, or infinity cast to a number.",
      "",
      "## Example",
      "",
      "```",
      "print(\"abc\" as int)",
      "      ^^^^^^^^^^^^",
      "```",
      "",
      "## Solution",
      "",
      "Only numeric strings convert to numbers."]
  | .illegalVariableValue => wholeLines [
      "# Illegal Variable Value",
      "",
      "A value cannot be stored in a variable of the declared type.",
      "",
      "## Example",
      "",
      "```",
      "int example :: [1, 2]",
      "               ^^^^^^",
      "```",
      "",
      "## Solution",
      "",
      "A list can only be stored in a scalar variable when it (recursively) holds exactly one element."]
  | .undefinedLoopIdentifier => wholeLines [
      "# Undefined Loop Identifier",
      "",
      "`break @name` or `continue @name` refers to a loop label that no enclosing loop carries. This is reported before anything runs.",
      "",
      "## Example",
      "",
      "```",
      "iterate 10 :: i \x7b",
      "    break @outer",
      "          ^^^^^^",
      "\x7d",
      "```",
      "",
      "## Solution",
      "",
      "Label the loop you want to leave:",
      "",
      "```",
      "@outer iterate 10 :: i \x7b",
      "    break @outer",
      "\x7d",
      "```"]
  | .invalidIterable => wholeLines [
      "# Invalid Iterable",
      "",
      "`iterate` counts over numbers or walks the elements of a list; other values cannot be iterated.",
      "",
      "## Example",
      "",
      "```",
      "iterate \"abc\" \x7b \x7d",
      "        ^^^^^",
      "```",
      "",
      "## Solution",
      "",
      "Iterate over a number or a list."]
  | .illegalValue => wholeLines [
      "# Illegal Value",
      "",
      "A value is of an acceptable type but not usable here, for example casting a list with several elements to a scalar.",
      "",
      "## Example",
      "",
      "```",
      "print([1, 2] as int)",
      "      ^^^^^^",
      "```",
      "",
      "## Solution",
      "",
      "Only lists that recursively hold exactly one element convert to a scalar."]
  | .illegalOperation => wholeLines [
      "# Illegal Operation",
      "",
      "The operator is not defined for the operand types, for example ordering a list against a number or taking the truth value of infinity.",
      "",
      "## Example",
      "",
      "```",
      "print([1] < 2)",
      "      ^^^^^^^",
      "```",
      "",
      "## Solution",
      "",
      "Convert the operands to compatible types first."]
  | .argumentType => wholeLines [
      "# Illegal Argument Casting",
      "",
      "An argument could not be converted to its parameter's declared type and the parameter has no default to fall back on.",
      "",
      "## Example",
      "",
      "```",
      "def example(int a) \x7b return a + 3 \x7d",
      "example(\"abc\")",
      "        ^^^^^",
      "```",
      "",
      "## Solution",
      "",
      "Pass a value of the declared type, or give the parameter a default."]
  | .tooArgument => wholeLines [
      "# Wrong Number Of Arguments",
      "",
      "A function was called with more arguments than it has parameters, with fewer arguments than it has required parameters, or with the same parameter given twice.",
      "",
      "## Example",
      "",
      "```",
      "def f(int a :: 1, int b :: 2) \x7b \x7d",
      "f(10, 20, 30)",
      "^^^^^^^^^^^^^",
      "```",
      "",
      "## Solution",
      "",
      "Pass at most one argument per parameter."]
  | .illegalArgumentValue => wholeLines [
      "# Illegal Argument Value",
      "",
      "An argument has the right type but a value the function does not accept.",
      "",
      "## Example",
      "",
      "```",
      "len(42)",
      "    ^^",
      "```",
      "",
      "## Solution",
      "",
      "`len` takes a string or a list."]
  | .unknownAttribute => wholeLines [
      "# Unknown Attribute",
      "",
      "A named argument names no parameter of the function, or an attribute does not exist on the value.",
      "",
      "## Example",
      "",
      "```",
      "def example(int arg_1) \x7b \x7d",
      "example(arg_2 :: 3)",
      "        ^^^^^^^^^^",
      "```",
      "",
      "## Solution",
      "",
      "Use one of the function's parameter names, or the attributes `len` and `type`."]
  | .unknownIdentifier => wholeLines [
      "# Unknown Identifier",
      "",
      "A name was used before it was defined, or outside the scope that defines it.",
      "",
      "## Example",
      "",
      "```",
      "print(a)",
      "      ^",
      "```",
      "",
      "## Solution",
      "",
      "Declare the variable first:",
      "",
      "```",
      "int a :: 1",
      "print(a)",
      "```"]
  | .numberOverflow => wholeLines [
      "# Number Overflow",
      "",
      "Integer arithmetic produced a value outside the 64-bit signed range, or an integer literal is too large.",
      "",
      "## Example",
      "",
      "```",
      "print(9223372036854775807 + 1)",
      "      ^^^^^^^^^^^^^^^^^^^^^^^",
      "```",
      "",
      "## Solution",
      "",
      "Use floats for very large numbers: `9223372036854775807.0 + 1`."]
  | .notCallable => wholeLines [
      "# Not Callable",
      "",
      "Only functions and builtins can be called.",
      "",
      "## Example",
      "",
      "```",
      "int a :: 3",
      "a(1)",
      "^",
      "```",
      "",
      "## Solution",
      "",
      "Call a function value."]
  | .returnOutsideFunction => wholeLines [
      "# Return Outside Function",
      "",
      "`return` is only meaningful inside a function body.",
      "",
      "## Example",
      "",
      "```",
      "return 5",
      "^^^^^^^^",
      "```",
      "",
      "## Solution",
      "",
      "Use the value directly, or wrap the code in a function."]
  | .divideByZero => wholeLines [
      "# Divide By Zero",
      "",
      "A value was divided by zero. The result is infinity, which remembers the dividend: multiplying it by zero gives the dividend back.",
      "",
      "## Example",
      "",
      "```",
      "auto a :: 5 / 0",
      "          ^^^^^",
      "```"]
  | .modByZero => wholeLines [
      "# Modulo By Zero",
      "",
      "A value was taken modulo zero. The result is zero of the dividend's type.",
      "",
      "## Example",
      "",
      "```",
      "int a :: 12 % 0",
      "         ^^^^^^",
      "```"]
  | .valueMultString => wholeLines [
      "# Value Multiplied By String",
      "",
      "A number was multiplied by a string. This is treated as the string multiplied by the number, repeating the string.",
      "",
      "## Example",
      "",
      "```",
      "str a :: 3 * \"hello\"",
      "         ^^^^^^^^^^^",
      "```",
      "",
      "## Solution",
      "",
      "Write the string first: `\"hello\" * 3`."]
  | .stringMultFloat => wholeLines [
      "# String Multiplied By Float",
      "",
      "A string was multiplied by a float. The float is rounded to the nearest whole number of repetitions.",
      "",
      "## Example",
      "",
      "```",
      "print(\"abc\" * 1.8)",
      "      ^^^^^^^^^^^",
      "```"]
  | .infinityDivValue => wholeLines [
      "# Infinity Divided By Value",
      "",
      "Infinity divided by a number is still infinity.",
      "",
      "## Example",
      "",
      "```",
      "auto a :: (1 / 0) / 3",
      "          ^^^^^^^^^^^",
      "```"]
  | .valueDivInfinity => wholeLines [
      "# Value Divided By Infinity",
      "",
      "A number divided by infinity is zero.",
      "",
      "## Example",
      "",
      "```",
      "auto a :: 3 / (1 / 0)",
      "          ^^^^^^^^^^^",
      "```"]
  | .infinityDivInfinity => wholeLines [
      "# Infinity Divided By Infinity",
      "",
      "Infinity divided by infinity is treated as zero.",
      "",
      "## Example",
      "",
      "```",
      "auto a :: (1 / 0) / (2 / 0)",
      "          ^^^^^^^^^^^^^^^^^",
      "```"]
  | .listFromValue => wholeLines [
      "# List From Value",
      "",
      "A scalar was assigned to a `list` variable and was wrapped in a single-element list.",
      "",
      "## Example",
      "",
      "```",
      "list a :: 3",
      "          ^",
      "```",
      "",
      "## Solution",
      "",
      "Write the list literal: `list a :: [3]`."]
  | .listIndexOutOfRange => wholeLines [
      "# List Index Out Of Range",
      "",
      "An index was past the end of the list; the last valid index was used instead.",
      "",
      "## Example",
      "",
      "```",
      "list a :: [1, 2]",
      "print(a[5])",
      "        ^",
      "```"]
  | .listIndexFloat => wholeLines [
      "# List Index Float",
      "",
      "A float was used as a list index and was rounded to the nearest integer.",
      "",
      "## Example",
      "",
      "```",
      "list a :: [1, 2]",
      "print(a[0.6])",
      "        ^^^",
      "```"]
  | .iterateStepLoop => wholeLines [
      "# Iterate Step Loop",
      "",
      "The step points away from the end value, so the loop would never finish. It runs zero times.",
      "",
      "## Example",
      "",
      "```",
      "iterate 0 to 10 step -1 \x7b \x7d",
      "                     ^^",
      "```"]
  | .iterateStepZero => wholeLines [
      "# Iterate Step Zero",
      "",
      "A step of zero never reaches the end value. The loop runs zero times.",
      "",
      "## Example",
      "",
      "```",
      "iterate 10 step 0 \x7b \x7d",
      "                ^",
      "```"]
  | .valueFromList => wholeLines [
      "# Value From List",
      "",
      "A list that recursively holds exactly one element was assigned to a scalar variable and was unwrapped.",
      "",
      "## Example",
      "",
      "```",
      "int a :: [[3]]",
      "         ^^^^^",
      "```"]
  | .valueFromString => wholeLines [
      "# Value From String",
      "",
      "A string was assigned to a numeric or bool variable and was parsed.",
      "",
      "## Example",
      "",
      "```",
      "int a :: \"42\"",
      "         ^^^^",
      "```",
      "",
      "## Solution",
      "",
      "Cast explicitly: `\"42\" as int`."]
  | .stringFromValue => wholeLines [
      "# String From Value",
      "",
      "A number or bool was assigned to a `str` variable and was converted to its text form.",
      "",
      "## Example",
      "",
      "```",
      "str a :: 42",
      "         ^^",
      "```",
      "",
      "## Solution",
      "",
      "Cast explicitly: `42 as str`."]
  | .noStringEnd => wholeLines [
      "# No String End",
      "",
      "A string literal has no closing delimiter before the end of the line. The string ends at the end of the line.",
      "",
      "## Example",
      "",
      "```",
      "print(\"hello)",
      "      ^",
      "```"]
  | .funcArgRet => wholeLines [
      "# Function Argument Return",
      "",
      "A parameter default was written with `:>`. Defaults always use `::`; the `:>` is treated as `::`.",
      "",
      "## Example",
      "",
      "```",
      "def f(int a :> 1) \x7b \x7d",
      "            ^^",
      "```"]
  | .funcAssignOperator => wholeLines [
      "# Function Assignment Operator",
      "",
      "A named argument was written with `:>`. Named arguments use `::`; the `:>` is treated as `::`.",
      "",
      "## Example",
      "",
      "```",
      "f(a :> 1)",
      "    ^^",
      "```"]
  | .argCastError => wholeLines [
      "# Argument Cast Error",
      "",
      "An argument could not be converted to its parameter's type, so the parameter's default was used instead.",
      "",
      "## Example",
      "",
      "```",
      "def f(int a :: 1) \x7b return a \x7d",
      "f(\"abc\")",
      "  ^^^^^",
      "```"]
  | .unknownGlobalOpt => wholeLines [
      "# Unknown Global Option",
      "",
      "A `#!` pragma names an option that does not exist. Known options are `log` and `nolog`.",
      "",
      "## Example",
      "",
      "```",
      "#!verbose",
      "^^^^^^^^^",
      "```"]

end ExprScript
