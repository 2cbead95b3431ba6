import PluralForms.SyntaxTree

/-! The statements of a formula. A choice becomes a block under its condition and the statements for
where the condition does not hold, and a formula is evaluated by walking its statements up to the
first return. -/

namespace PluralForms

/-- A return, or a block that is walked if the condition holds. -/
inductive Statement where
  | ret (value : Expr)
  | ifThen (condition : Expr) (block : List Statement)

mutual

/-- The value of the first return that is reached, if one is. -/
def Statement.run (n : Int64) : Statement → Option Int64
  | .ret value => some (value.eval n)
  | .ifThen condition block => if condition.eval n = 0 then none else Statement.runAll n block

def Statement.runAll (n : Int64) : List Statement → Option Int64
  | [] => none
  | statement :: rest => (statement.run n).or (Statement.runAll n rest)

end

/-- The statements of the tree. -/
def SyntaxTree.body : SyntaxTree → List Statement
  | .result value => [.ret value]
  | .choose condition yes no => .ifThen condition yes.body :: no.body

/-- Walking the statements of a tree always reaches a return, with the value of the tree. -/
theorem SyntaxTree.runAll_body (tree : SyntaxTree) (n : Int64) :
    Statement.runAll n tree.body = some (tree.eval n) := by
  induction tree with
  | result value => rfl
  | choose condition yes no ihYes ihNo =>
    rw [body, Statement.runAll, Statement.run, ihYes, ihNo, eval]
    split <;> rfl

end PluralForms
