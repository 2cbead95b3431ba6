import PluralForms.SyntaxTree

/-! The constructor form of syntax trees: each expression and statement as the name of its kind with
its parts. -/

namespace PluralForms

def UnaryOp.debug : UnaryOp → String
  | .neg => "Neg"
  | .not => "Not"

def Comparison.debug : Comparison → String
  | .eq => "Eq"
  | .ne => "Ne"
  | .lt => "Lt"
  | .le => "Le"
  | .gt => "Gt"
  | .ge => "Ge"

def BinaryOp.debug : BinaryOp → String
  | .arith .add => "Add"
  | .arith .sub => "Sub"
  | .arith .mul => "Mul"
  | .arith .div => "Div"
  | .arith .mod => "Mod"
  | .compare comparison => comparison.debug
  | .and => "And"
  | .or => "Or"

def Expr.debug : Expr → String
  | .count => "Var"
  | .literal value => s!"Literal({Text.decimal value.toInt})"
  | .unary op operand => s!"Unary({op.debug}, {operand.debug})"
  | .binary op left right => s!"Binary({op.debug}, {left.debug}, {right.debug})"

/-- The statements of a tree, separated by commas. -/
def SyntaxTree.statements : SyntaxTree → String
  | .result value => s!"Return({value.debug})"
  | .choose condition yes no =>
    s!"If \x7b cond: {condition.debug}, then: [{yes.statements}] \x7d, {no.statements}"

def SyntaxTree.debug (tree : SyntaxTree) : String := s!"[{tree.statements}]"

end PluralForms
