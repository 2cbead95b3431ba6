import PluralForms.Operator
import PluralForms.Text.Basic

/-! The tokens of plural formulas. -/

namespace PluralForms

/-- A token: the count, a number, an operator or a mark. -/
inductive Token where
  | count
  | integer (value : Int64)
  | arith (op : Arithmetic)
  | compare (comparison : Comparison)
  | and
  | or
  | not
  | question
  | colon
  | opening
  | closing
  deriving DecidableEq, Repr

/-- The sign of an arithmetic operator in formulas. -/
def Arithmetic.symbol : Arithmetic → String
  | .add => "+"
  | .sub => "-"
  | .mul => "*"
  | .div => "/"
  | .mod => "%"

/-- The sign of a comparison in formulas. -/
def Comparison.symbol : Comparison → String
  | .eq => "=="
  | .ne => "!="
  | .lt => "<"
  | .le => "<="
  | .gt => ">"
  | .ge => ">="

/-- The written form of a token. -/
def Token.text : Token → String
  | .count => "n"
  | .integer value => Text.decimal value.toInt
  | .arith op => op.symbol
  | .compare comparison => comparison.symbol
  | .and => "&&"
  | .or => "||"
  | .not => "!"
  | .question => "?"
  | .colon => ":"
  | .opening => "("
  | .closing => ")"

end PluralForms
