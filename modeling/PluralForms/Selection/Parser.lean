import PluralForms.Selection.Emission
import PluralForms.Token.Lexer

/-! The reader of plural selections, which looks one token ahead:

    expression := or ('?' expression ':' expression)?
    or         := and ('||' and)*
    and        := comparison ('&&' comparison)*
    comparison := arithmetic (compare INTEGER)?
    arithmetic := primary (operator INTEGER)*
    primary    := 'n' | INTEGER | '(' expression ')'

It refuses an expression where a part of another kind is needed, and each error is the first that
reading from left to right meets. -/

namespace PluralForms

namespace Lexed

/-- The position of the next token, or of what stands in its place. -/
def position : Lexed → Nat
  | .eof position => position
  | .broken error => error.position
  | .token _ position _ => position

def head? : Lexed → Option Token
  | .token head _ _ => some head
  | _ => none

/-- The tokens after the next one, if the one after it can be told. -/
def advance : Lexed → Except ParseError Lexed
  | .token _ _ (.broken error) => .error error
  | .token _ _ rest => .ok rest
  | lexed => .ok lexed

def unexpected (expected : Expectation) : Lexed → ParseError
  | .eof position => ⟨position, .unexpectedEnd expected⟩
  | .broken error => error
  | .token found position _ => ⟨position, .unexpectedToken found expected⟩

/-- The tokens after the token `wanted`, which must be the next. -/
def expect (wanted : Token) (expected : Expectation) (lexed : Lexed) : Except ParseError Lexed :=
  if lexed.head? = some wanted then lexed.advance else .error (lexed.unexpected expected)

end Lexed

namespace Selection

/-- What an expression turns out to be. A chain is additive if the last of its operators that is not
closed off by parentheses is an addition or a subtraction. -/
inductive Operand where
  | literal (value : Int64)
  | chain (chain : Chain) (additive : Bool)
  | condition (condition : Condition)
  | choice (condition : Condition) (yes no : Selection)

/-- The operand as a condition; `position` is where it starts. -/
def Operand.toCondition (position : Nat) : Operand → Except ParseError Condition
  | .condition found => .ok found
  | .literal _ => .error ⟨position, .unsupported .constantCondition⟩
  | .chain _ _ => .error ⟨position, .arithmeticResult⟩
  | .choice _ _ _ => .error ⟨position, .ternaryOperand⟩

/-- The operand as a selection; `position` is where it starts. -/
def Operand.toSelection (position : Nat) : Operand → Except ParseError Selection
  | .literal value => .ok (.constant value)
  | .condition found => .ok (.test found)
  | .choice deciding yes no => .ok (.choose deciding yes no)
  | .chain _ _ => .error ⟨position, .arithmeticResult⟩

/-- The chain on the left of an arithmetic operator, and whether it is additive. -/
def Operand.toArithmetic (position : Nat) : Operand → Except ParseError (Chain × Bool)
  | .chain links additive => .ok (links, additive)
  | .literal _ => .error ⟨position, .unsupported .literalBeforeOperator⟩
  | .condition _ => .error ⟨position, .unsupported .arithmeticOnCondition⟩
  | .choice _ _ _ => .error ⟨position, .ternaryOperand⟩

/-- The chain on the left of a comparison. -/
def Operand.toCompared (position : Nat) : Operand → Except ParseError Chain
  | .chain links _ => .ok links
  | .literal _ => .error ⟨position, .unsupported .literalBeforeComparison⟩
  | .condition _ => .error ⟨position, .unsupported .comparisonOfCondition⟩
  | .choice _ _ _ => .error ⟨position, .ternaryOperand⟩

/-- A reader yields what it read and the tokens that follow. -/
abbrev Reader (α : Type) := Lexed → Except ParseError (α × Lexed)

def literal : Reader Int64 := fun lexed =>
  match lexed with
  | .token (.integer value) _ _ => do return (value, ← lexed.advance)
  | .token .count position _ | .token .opening position _ => .error ⟨position, .nonLiteralOperand⟩
  | .token (.arith .sub) position _ => .error ⟨position, .unsupported .negativeLiteral⟩
  | _ => .error (lexed.unexpected .integerLiteral)

/-- The count, a literal, or an expression in parentheses, which `inner` reads. -/
def primary (inner : Reader Operand) : Reader Operand := fun lexed =>
  match lexed with
  | .token .count _ _ => do return (.chain [] false, ← lexed.advance)
  | .token (.integer value) _ _ => do return (.literal value, ← lexed.advance)
  | .token .opening _ _ => do
    let (operand, rest) ← inner (← lexed.advance)
    let rest ← rest.expect .closing .closing
    match operand with
    | .chain links _ => return (.chain links false, rest)
    | operand => return (operand, rest)
  | .token (.arith .sub) position _ | .token .not position _ =>
    .error ⟨position, .unsupported .unaryOperator⟩
  | _ => .error (lexed.unexpected .expression)

/-- Applies `step` to what was read so far as long as it finds something to add, which it does at
most `fuel` times. -/
def repeated (step : α → Lexed → Except ParseError (Option (α × Lexed))) : Nat → α → Reader α
  | 0, soFar => fun lexed => .ok (soFar, lexed)
  | fuel + 1, soFar => fun lexed => do
    match ← step soFar lexed with
    | none => return (soFar, lexed)
    | some (more, rest) => repeated step fuel more rest

/-- One operator with its literal after an operand that starts at `start`. -/
def operator (start : Nat) (left : Operand) (lexed : Lexed) :
    Except ParseError (Option (Operand × Lexed)) :=
  match lexed with
  | .token (.arith op) position _ => do
    let (links, additive) ← left.toArithmetic start
    if op.isMultiplicative && additive then .error ⟨position, .mixedPrecedence⟩
    let lexed ← lexed.advance
    let (value, rest) ← literal lexed
    if value = 0 && op.divides then .error ⟨lexed.position, .divisionByZero⟩
    return some (.chain (links ++ [(op, value)]) (additive || !op.isMultiplicative), rest)
  | _ => return none

/-- A primary expression and the operators after it. -/
def arithmetic (inner : Reader Operand) : Reader Operand := fun lexed => do
  let (first, rest) ← primary inner lexed
  repeated (operator lexed.position) rest.size first rest

/-- An arithmetic expression or its comparison with a literal. -/
def comparison (inner : Reader Operand) : Reader Operand := fun lexed => do
  let (left, rest) ← arithmetic inner lexed
  match rest with
  | .token (.compare relation) _ _ =>
    let links ← left.toCompared lexed.position
    let (value, rest) ← literal (← rest.advance)
    return (.condition (.compare links relation value), rest)
  | _ => return (left, rest)

/-- One more condition behind the connective `mark`, after an operand that starts at `start`. -/
def joined (mark : Token) (join : Condition → Condition → Condition) (next : Reader Operand)
    (start : Nat) (left : Operand) (lexed : Lexed) : Except ParseError (Option (Operand × Lexed)) :=
  if lexed.head? = some mark then do
    let first ← left.toCondition start
    let lexed ← lexed.advance
    let (right, rest) ← next lexed
    let second ← right.toCondition lexed.position
    return some (.condition (join first second), rest)
  else return none

/-- Operands that `next` reads, joined by the connective `mark`. -/
def connected (mark : Token) (join : Condition → Condition → Condition) (next : Reader Operand) :
    Reader Operand := fun lexed => do
  let (first, rest) ← next lexed
  repeated (joined mark join next lexed.position) rest.size first rest

/-- Comparisons joined by `&&`, and those joined by `||`. -/
def disjunction (inner : Reader Operand) : Reader Operand :=
  connected .or .or (connected .and .and (comparison inner))

def branch (inner : Reader Operand) : Reader Selection := fun lexed => do
  let (operand, rest) ← inner lexed
  return (← operand.toSelection lexed.position, rest)

/-- An expression with less than `depth` expressions inside one another. -/
def expression : Nat → Reader Operand
  | 0 => fun lexed => .error (lexed.unexpected .expression)
  | depth + 1 => fun lexed => do
    let inner := expression depth
    let (head, rest) ← disjunction inner lexed
    if rest.head? = some .question then
      let condition ← head.toCondition lexed.position
      let (yes, rest) ← branch inner (← rest.advance)
      let (no, rest) ← branch inner (← rest.expect .colon .colon)
      return (.choice condition yes no, rest)
    else return (head, rest)

/-- The selection that the tokens of a text form. -/
def ofLexed (lexed : Lexed) : Except ParseError Selection :=
  match lexed with
  | .broken error => .error error
  | .eof position => .error ⟨position, .empty⟩
  | .token _ position _ => do
    let (operand, rest) ← expression (lexed.size + 1) lexed
    match rest with
    | .eof _ => operand.toSelection position
    | rest => .error (rest.unexpected .endOfInput)

def parse (text : List Char) : Except ParseError Selection := ofLexed (Lexed.ofChars text)

end Selection

def Program.compile (text : List Char) : Except ParseError Program :=
  (Selection.parse text).map Selection.emitted

end PluralForms
