import PluralForms.Token

/-! Expressions of plural formulas with every operator of the C language that they use. Truth values
are the words 0 and 1, and every word but 0 counts as true. -/

namespace PluralForms

/-- An operator before its operand. -/
inductive UnaryOp where
  | neg | not
  deriving DecidableEq, Repr

/-- An operator between two operands. -/
inductive BinaryOp where
  | arith (op : Arithmetic)
  | compare (comparison : Comparison)
  | and
  | or
  deriving DecidableEq, Repr

def UnaryOp.symbol : UnaryOp → String
  | .neg => "-"
  | .not => "!"

def BinaryOp.symbol : BinaryOp → String
  | .arith op => op.symbol
  | .compare comparison => comparison.symbol
  | .and => "&&"
  | .or => "||"

def UnaryOp.apply : UnaryOp → Int64 → Int64
  | .neg, a => -a
  | .not, a => wordOfBool (a == 0)

def BinaryOp.apply : BinaryOp → Int64 → Int64 → Int64
  | .arith op, a, b => op.apply a b
  | .compare comparison, a, b => wordOfBool (comparison.holds a b)
  | .and, a, b => wordOfBool (a != 0 && b != 0)
  | .or, a, b => wordOfBool (a != 0 || b != 0)

/-- An expression over the count. -/
inductive Expr where
  | count
  | literal (value : Int64)
  | unary (op : UnaryOp) (operand : Expr)
  | binary (op : BinaryOp) (left right : Expr)
  deriving DecidableEq, Repr

namespace Expr

def eval (n : Int64) : Expr → Int64
  | .count => n
  | .literal value => value
  | .unary op operand => op.apply (operand.eval n)
  | .binary op left right => op.apply (left.eval n) (right.eval n)

/-- The written form of an expression, with every binary operator in parentheses. -/
def text : Expr → String
  | .count => "n"
  | .literal value => Text.decimal value.toInt
  | .unary op operand => op.symbol ++ operand.text
  | .binary op left right => s!"({left.text} {op.symbol} {right.text})"

/-- The operator applied to the operand, where the negation of a literal is again a literal. -/
def ofUnary : UnaryOp → Expr → Expr
  | .neg, .literal value => .literal (-value)
  | op, operand => .unary op operand

end Expr

end PluralForms
