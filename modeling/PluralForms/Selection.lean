import PluralForms.Program

/-! Plural selections, the formulas that one register and one flag can calculate. A selection
chooses a constant by conditions, and a condition joins comparisons of `n`, or of a chain of
operators applied to `n`, with constants. Each has a value for every count and code for the
machine. -/

namespace PluralForms

/-- Operators with constants, applied to the count one after the other. -/
abbrev Chain := List (Arithmetic × Int64)

/-- The value of a chain that starts at `n`. -/
def Chain.apply (chain : Chain) (n : Int64) : Int64 :=
  chain.foldl (fun value link => link.1.apply value link.2) n

/-- The instructions of a chain, from a load of the count on. -/
def Chain.code (chain : Chain) : Program :=
  .load 0 :: chain.map fun link => .arith link.1 link.2

/-- A condition on the count. -/
inductive Condition where
  | compare (chain : Chain) (comparison : Comparison) (operand : Int64)
  | and (left right : Condition)
  | or (left right : Condition)
  deriving DecidableEq, Repr

namespace Condition

def holds (n : Int64) : Condition → Bool
  | .compare chain comparison operand => comparison.holds (chain.apply n) operand
  | .and left right => left.holds n && right.holds n
  | .or left right => left.holds n || right.holds n

/-- Code after which `S` tells whether the condition holds. It may also leave early by a jump: to
`onTrue` places after the code with `S` set, or to `onFalse` places after it with `S` clear. -/
def code (onTrue onFalse : Nat) : Condition → Program
  | .compare chain comparison operand => chain.code ++ [.test comparison operand]
  | .and left right =>
    let second := right.code onTrue onFalse
    let past := second.length + onFalse
    left.code 1 (1 + past) ++ .jump false past :: second
  | .or left right =>
    let second := right.code onTrue onFalse
    let past := second.length + onTrue
    left.code (1 + past) 1 ++ .jump true past :: second

end Condition

/-- A formula that chooses a constant. A condition stands for 1 where it holds and for 0 where it
does not. -/
inductive Selection where
  | constant (value : Int64)
  | test (condition : Condition)
  | choose (condition : Condition) (yes no : Selection)
  deriving DecidableEq, Repr

namespace Selection

def eval (n : Int64) : Selection → Int64
  | .constant value => value
  | .test condition => wordOfBool (condition.holds n)
  | .choose condition yes no => if condition.holds n then yes.eval n else no.eval n

/-- Code that returns the value of the selection. -/
def code : Selection → Program
  | .constant value => [.ret value]
  | .test condition => condition.code 1 2 ++ [.jump false 1, .ret 1, .ret 0]
  | .choose condition yes no =>
    let first := yes.code
    condition.code 1 (1 + first.length) ++ .jump false first.length :: (first ++ no.code)

/-- The program of a selection. A condition alone needs no return, as the program ends with `S`. -/
def program : Selection → Program
  | .test condition => condition.code 0 0
  | selection => selection.code

end Selection

end PluralForms
