import PluralForms.Token

/-! The errors of formulas that cannot be read: a position, which counts characters, and a cause. -/

namespace PluralForms

/-- What a formula needs at some position. -/
inductive Expectation where
  | expression
  | integerLiteral
  | colon
  | closing
  | endOfInput
  deriving DecidableEq, Repr

def Expectation.text : Expectation → String
  | .expression => "expression"
  | .integerLiteral => "integer literal"
  | .colon => "':'"
  | .closing => "')'"
  | .endOfInput => "end of input"

/-- Formulas that are sound but cannot be calculated with one register. -/
inductive Unsupported where
  | constantCondition
  | literalBeforeComparison
  | comparisonOfCondition
  | literalBeforeOperator
  | arithmeticOnCondition
  | unaryOperator
  | negativeLiteral
  deriving DecidableEq, Repr

def Unsupported.text : Unsupported → String
  | .constantCondition => "constant condition"
  | .literalBeforeComparison => "literal on the left of a comparison"
  | .comparisonOfCondition => "comparison of a condition"
  | .literalBeforeOperator => "literal on the left of an operator"
  | .arithmeticOnCondition => "arithmetic on a condition"
  | .unaryOperator => "unary operator"
  | .negativeLiteral => "negative literal"

/-- Why a formula cannot be read. -/
inductive ParseError.Cause where
  | unexpectedChar (c : Char)
  | unknownIdentifier (name : String)
  | integerOverflow
  | unexpectedToken (found : Token) (expected : Expectation)
  | unexpectedEnd (expected : Expectation)
  | nonLiteralOperand
  | arithmeticResult
  | mixedPrecedence
  | divisionByZero
  | ternaryOperand
  | unsupported (what : Unsupported)
  | empty
  deriving DecidableEq, Repr

/-- A cause and the position of the character where it was met. -/
structure ParseError where
  position : Nat
  cause : ParseError.Cause
  deriving DecidableEq, Repr

def ParseError.Cause.message : Cause → String
  | .unexpectedChar c => s!"Unexpected character '{c.toString}'"
  | .unknownIdentifier name => s!"Unknown identifier: {name}"
  | .integerOverflow => "Integer literal out of range"
  | .unexpectedToken found expected => s!"Expected {expected.text}, found '{found.text}'"
  | .unexpectedEnd expected => s!"Expected {expected.text}, found end of input"
  | .nonLiteralOperand => "Operand must be an integer literal"
  | .arithmeticResult => "Arithmetic value used as a result"
  | .mixedPrecedence => "Multiplicative operator after an additive one"
  | .divisionByZero => "Division by zero"
  | .ternaryOperand => "Conditional expression used as an operand"
  | .unsupported what => s!"Unsupported syntax: {what.text}"
  | .empty => "Empty expression"

def ParseError.message (error : ParseError) : String :=
  s!"{error.cause.message} at position {error.position}"

/-- The formula means nothing in any reading, so no other reader need be asked. -/
def ParseError.isFatal (error : ParseError) : Bool :=
  match error.cause with
  | .divisionByZero | .integerOverflow => true
  | _ => false

end PluralForms
