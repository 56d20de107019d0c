import ExprScript.Text.Blank

/-!
# Codes of errors and warnings

Every kind of fault has a stable label, a kind name, a short title and a message template whose
holes are filled from the diagnostic's arguments. Errors end a run; after a warning the evaluation
goes on with a substituted value.
-/
namespace ExprScript

inductive Piece where
  | text (words : String)
  | arg (index : Nat)

def hole (index : Nat) : String :=
  "\x7b" ++ toString index ++ "\x7d"

def Piece.written : Piece → String
  | .text words => words
  | .arg index => hole index

/-- The piece with its argument put in; a hole without an argument stays as it is written. -/
def Piece.filled (args : List String) : Piece → String
  | .text words => words
  | .arg index => (args[index]?).getD (hole index)

/-- The kinds of faults, errors before warnings, each group in the order of its labels. -/
inductive Code where
  | expectedChar
  | expectedExpr
  | expectedType
  | expectedIdentifier
  | expectedLoopIdentifier
  | expectedAssignmentOperator
  | expectedAttribute
  | illegalChar
  | illegalValueType
  | unexpectedToken
  | unmatchedBracket
  | illegalCastType
  | illegalVariableValue
  | undefinedLoopIdentifier
  | invalidIterable
  | illegalValue
  | illegalOperation
  | argumentType
  | tooArgument
  | illegalArgumentValue
  | unknownAttribute
  | unknownIdentifier
  | numberOverflow
  | notCallable
  | returnOutsideFunction
  | divideByZero
  | modByZero
  | valueMultString
  | stringMultFloat
  | infinityDivValue
  | valueDivInfinity
  | infinityDivInfinity
  | listFromValue
  | listIndexOutOfRange
  | listIndexFloat
  | iterateStepLoop
  | iterateStepZero
  | valueFromList
  | valueFromString
  | stringFromValue
  | noStringEnd
  | funcArgRet
  | funcAssignOperator
  | argCastError
  | unknownGlobalOpt
  deriving DecidableEq, Inhabited

structure CodeEntry where
  label : String
  kind : String
  title : String
  template : List Piece

namespace Code

/-- The catalog of faults. -/
def entry : Code → CodeEntry
  | .expectedChar => ⟨"E001", "ExpectedChar", "Expected character", [.text "Expected ", .arg 0]⟩
  | .expectedExpr =>
    ⟨"E002", "ExpectedExpr", "Expected expression",
      [.text "Expected an expression, found ", .arg 0]⟩
  | .expectedType =>
    ⟨"E003", "ExpectedType", "Expected type",
      [.text "Expected a type, found ", .arg 0]⟩
  | .expectedIdentifier =>
    ⟨"E004", "ExpectedIdentifier", "Expected identifier",
      [.text "Expected an identifier, found ", .arg 0]⟩
  | .expectedLoopIdentifier =>
    ⟨"E005", "ExpectedLoopIdentifier", "Expected loop identifier",
      [.text "Expected a loop name after '@', found ", .arg 0]⟩
  | .expectedAssignmentOperator =>
    ⟨"E006", "ExpectedAssignmentOperator", "Expected assignment operator",
      [.text "Expected an assignment operator, found ", .arg 0]⟩
  | .expectedAttribute =>
    ⟨"E007", "ExpectedAttribute", "Expected attribute",
      [.text "Expected an attribute name after '.', found ", .arg 0]⟩
  | .illegalChar =>
    ⟨"E008", "IllegalChar", "Illegal character",
      [.text "Illegal character ", .arg 0, .text " at ", .arg 1]⟩
  | .illegalValueType =>
    ⟨"E009", "IllegalValueType", "Illegal value type",
      [.text "A value of type ", .arg 0, .text " cannot be used ", .arg 1]⟩
  | .unexpectedToken =>
    ⟨"E010", "UnexpectedToken", "Unexpected token",
      [.text "Unexpected ", .arg 0]⟩
  | .unmatchedBracket =>
    ⟨"E011", "UnmatchedBracket", "Unmatched bracket",
      [.text "Bracket ", .arg 0, .text " has no matching ", .arg 1]⟩
  | .illegalCastType =>
    ⟨"E012", "IllegalCastType", "Illegal cast type",
      [.text "Cannot cast ", .arg 0, .text " to ", .arg 1]⟩
  | .illegalVariableValue =>
    ⟨"E013", "IllegalVariableValue", "Illegal variable value",
      [.text "Cannot assign a value of type ", .arg 0, .text " to ", .arg 1,
        .text " variable '", .arg 2, .text "'"]⟩
  | .undefinedLoopIdentifier =>
    ⟨"E014", "UndefinedLoopIdentifier", "Undefined loop identifier",
      [.text "No enclosing loop is named '@", .arg 0, .text "'"]⟩
  | .invalidIterable =>
    ⟨"E015", "InvalidIterable", "Invalid iterable",
      [.text "Cannot iterate over a value of type ", .arg 0]⟩
  | .illegalValue => ⟨"E016", "IllegalValue", "Illegal value", [.arg 0]⟩
  | .illegalOperation =>
    ⟨"E017", "IllegalOperation", "Illegal operation",
      [.text "Operation '", .arg 0, .text "' is not supported for ", .arg 1]⟩
  | .argumentType =>
    ⟨"E018", "ArgumentType", "Illegal argument casting",
      [.text "Argument '", .arg 0, .text "' of ", .arg 1, .text " expects ", .arg 2,
        .text ", got ", .arg 3]⟩
  | .tooArgument =>
    ⟨"E019", "TooArgument", "Wrong number of arguments",
      [.arg 0, .text ": ", .arg 1]⟩
  | .illegalArgumentValue =>
    ⟨"E020", "IllegalArgumentValue", "Illegal argument value",
      [.text "Illegal value for argument '", .arg 0, .text "' of ", .arg 1, .text ": ", .arg 2]⟩
  | .unknownAttribute =>
    ⟨"E021", "UnknownAttribute", "Unknown attribute",
      [.arg 0, .text " has no attribute or parameter named '", .arg 1, .text "'"]⟩
  | .unknownIdentifier =>
    ⟨"E022", "UnknownIdentifier", "Unknown identifier",
      [.text "'", .arg 0, .text "' is not defined"]⟩
  | .numberOverflow =>
    ⟨"E023", "NumberOverflow", "Number overflow",
      [.text "Integer overflow in '", .arg 0, .text "'"]⟩
  | .notCallable =>
    ⟨"E024", "NotCallable", "Not callable",
      [.text "A value of type ", .arg 0, .text " cannot be called"]⟩
  | .returnOutsideFunction =>
    ⟨"E025", "ReturnOutsideFunction", "Return outside function",
      [.text "'return' used outside of a function"]⟩
  | .divideByZero =>
    ⟨"W001", "DivideByZero", "Divide by zero",
      [.arg 0, .text " divided by zero, result is infinity"]⟩
  | .modByZero =>
    ⟨"W002", "ModByZero", "Modulo by zero",
      [.arg 0, .text " modulo zero, result is 0"]⟩
  | .valueMultString =>
    ⟨"W003", "ValueMultString", "Value multiplied by string",
      [.text "Number multiplied by a string, repeating the string ", .arg 0, .text " times"]⟩
  | .stringMultFloat =>
    ⟨"W004", "StringMultFloat", "String multiplied by float",
      [.text "String multiplied by float ", .arg 0, .text ", repeat count rounded to ", .arg 1]⟩
  | .infinityDivValue =>
    ⟨"W005", "InfinityDivValue", "Infinity divided by value",
      [.text "Infinity divided by ", .arg 0, .text " is still infinity"]⟩
  | .valueDivInfinity =>
    ⟨"W006", "ValueDivInfinity", "Value divided by infinity",
      [.arg 0, .text " divided by infinity, result is 0"]⟩
  | .infinityDivInfinity =>
    ⟨"W007", "InfinityDivInfinity", "Infinity divided by infinity",
      [.text "Infinity divided by infinity, result is 0"]⟩
  | .listFromValue =>
    ⟨"W008", "ListFromValue", "List from value",
      [.text "Value of type ", .arg 0, .text " assigned to list '", .arg 1,
        .text "' was wrapped in a list"]⟩
  | .listIndexOutOfRange =>
    ⟨"W009", "ListIndexOutOfRange", "List index out of range",
      [.text "Index ", .arg 0, .text " is out of range for a list of length ", .arg 1,
        .text ", using ", .arg 2]⟩
  | .listIndexFloat =>
    ⟨"W010", "ListIndexFloat", "List index was float",
      [.text "Float index ", .arg 0, .text " was rounded to ", .arg 1]⟩
  | .iterateStepLoop =>
    ⟨"W011", "IterateStepLoop", "Iterate step loop",
      [.text "Step ", .arg 0, .text " never reaches ", .arg 1, .text " from ", .arg 2,
        .text ", loop skipped"]⟩
  | .iterateStepZero =>
    ⟨"W012", "IterateStepZero", "Iterate step zero",
      [.text "Step of zero never reaches ", .arg 0, .text ", loop skipped"]⟩
  | .valueFromList =>
    ⟨"W013", "ValueFromList", "Value from list",
      [.text "Single-element list assigned to ", .arg 0, .text " '", .arg 1,
        .text "' was unwrapped"]⟩
  | .valueFromString =>
    ⟨"W014", "ValueFromString", "Value from string",
      [.text "String assigned to ", .arg 0, .text " '", .arg 1, .text "' was parsed as a number"]⟩
  | .stringFromValue =>
    ⟨"W015", "StringFromValue", "String from value",
      [.text "Value of type ", .arg 0, .text " assigned to str '", .arg 1,
        .text "' was converted to text"]⟩
  | .noStringEnd =>
    ⟨"W016", "NoStringEnd", "No string end",
      [.text "String opened with ", .arg 0, .text " has no closing delimiter on the same line"]⟩
  | .funcArgRet =>
    ⟨"W017", "FuncArgRet", "Function argument return",
      [.text "Default for parameter '", .arg 0, .text "' uses ':>', treated as '::'"]⟩
  | .funcAssignOperator =>
    ⟨"W018", "FuncAssignOperator", "Function assignment operator",
      [.text "Named argument '", .arg 0, .text "' uses ':>', treated as '::'"]⟩
  | .argCastError =>
    ⟨"W019", "ArgCastError", "Argument cast error",
      [.text "Argument '", .arg 0, .text "' could not be cast to ", .arg 1,
        .text ", using its default"]⟩
  | .unknownGlobalOpt =>
    ⟨"W020", "UnknownGlobalOpt", "Unknown global option",
      [.text "Unknown option '#!", .arg 0, .text "'"]⟩

def all : List Code := [
  .expectedChar, .expectedExpr, .expectedType, .expectedIdentifier, .expectedLoopIdentifier,
  .expectedAssignmentOperator, .expectedAttribute, .illegalChar, .illegalValueType,
  .unexpectedToken, .unmatchedBracket, .illegalCastType, .illegalVariableValue,
  .undefinedLoopIdentifier, .invalidIterable, .illegalValue, .illegalOperation, .argumentType,
  .tooArgument, .illegalArgumentValue, .unknownAttribute, .unknownIdentifier, .numberOverflow,
  .notCallable, .returnOutsideFunction, .divideByZero, .modByZero, .valueMultString,
  .stringMultFloat, .infinityDivValue, .valueDivInfinity, .infinityDivInfinity, .listFromValue,
  .listIndexOutOfRange, .listIndexFloat, .iterateStepLoop, .iterateStepZero, .valueFromList,
  .valueFromString, .stringFromValue, .noStringEnd, .funcArgRet, .funcAssignOperator,
  .argCastError, .unknownGlobalOpt]

theorem mem_all (code : Code) : code ∈ all := by
  cases code <;> decide

def label (code : Code) : String := code.entry.label

def kind (code : Code) : String := code.entry.kind

def title (code : Code) : String := code.entry.title

def template (code : Code) : String :=
  String.join (code.entry.template.map Piece.written)

def message (code : Code) (args : List String) : String :=
  String.join (code.entry.template.map (Piece.filled args))

/-- Whether evaluation goes on after the fault. -/
def isWarning : Code → Bool
  | .divideByZero | .modByZero | .valueMultString | .stringMultFloat | .infinityDivValue
  | .valueDivInfinity | .infinityDivInfinity | .listFromValue | .listIndexOutOfRange
  | .listIndexFloat | .iterateStepLoop | .iterateStepZero | .valueFromList | .valueFromString
  | .stringFromValue | .noStringEnd | .funcArgRet | .funcAssignOperator | .argCastError
  | .unknownGlobalOpt => true
  | _ => false

/-- The code with the given label; blanks around it and the case of its letters do not matter. -/
def ofText? (text : String) : Option Code :=
  let label := String.ofList ((trim text.toList).map Char.toUpper)
  all.find? fun code => code.label = label

end Code
end ExprScript
