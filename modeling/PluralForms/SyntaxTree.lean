import PluralForms.Expr

/-! Syntax trees of plural formulas: expressions to return, chosen by expressions that are
conditions. A tree is shown as a block of statements, which is left by the first return. -/

namespace PluralForms

/-- A formula with every operator. -/
inductive SyntaxTree where
  | result (value : Expr)
  | choose (condition : Expr) (yes no : SyntaxTree)
  deriving DecidableEq, Repr

namespace SyntaxTree

def eval (n : Int64) : SyntaxTree → Int64
  | .result value => value.eval n
  | .choose condition yes no => if condition.eval n = 0 then no.eval n else yes.eval n

/-- The statements of the tree, one on a line, where `indent` stands before each. -/
def block (indent : String) : SyntaxTree → String
  | .result value => s!"{indent}return {value.text}\n"
  | .choose condition yes no =>
    s!"{indent}if {condition.text} \x7b\n" ++ yes.block (indent ++ "    ") ++
      s!"{indent}\x7d\n" ++ no.block indent

def text (tree : SyntaxTree) : String := tree.block ""

end SyntaxTree

end PluralForms
