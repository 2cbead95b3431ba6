import PluralForms.Program.Builder
import PluralForms.Selection

/-! Programs of selections as they are written, from the first instruction to the last. A jump is
written before it is known where it goes, and its label is kept until that place is reached. -/

namespace PluralForms

open Program (Builder Label)

/-- The labels of jumps that await their targets, by the value of `S` with which they are taken. -/
abbrev Exits := Bool → List Label

/-- The jumps out of two conditions, the first of which is skipped out of with the outcome `on`, by
a jump after it as well. -/
def Exits.joined (on : Bool) (first : Exits) (jump : Label) (second : Exits) : Exits :=
  fun outcome => if outcome = on then first on ++ jump :: second on else second outcome

/-- Writes two conditions. Where the first has the outcome `on`, a jump leaves past the second. -/
def Condition.emitJoined (on : Bool) (left right : Builder → Builder × Exits) (builder : Builder) :
    Builder × Exits :=
  let (builder, first) := left builder
  let (builder, jump) := builder.emitJump on
  let (builder, second) := right (builder.aimAll (first !on))
  (builder, .joined on first jump second)

/-- Writes code after which `S` tells whether the condition holds. The jumps that leave it before
await their targets. -/
def Condition.emit : Condition → Builder → Builder × Exits
  | .compare chain comparison operand => fun builder =>
    ((chain.code.foldl Builder.emit builder).emit (.test comparison operand), fun _ => [])
  | .and left right => emitJoined false left.emit right.emit
  | .or left right => emitJoined true left.emit right.emit

namespace Selection

/-- Writes a condition and what follows where it holds and where it does not. -/
def emitChoice (condition : Condition) (yes no : Builder → Builder) (builder : Builder) : Builder :=
  let (builder, exits) := condition.emit builder
  let (builder, jump) := builder.emitJump false
  let builder := yes (builder.aimAll (exits true))
  no (builder.aimAll (exits false ++ [jump]))

/-- Writes code that returns the value of the selection. -/
def emit : Selection → Builder → Builder
  | .constant value => fun builder => builder.emit (.ret value)
  | .test condition => emitChoice condition (·.emit (.ret 1)) (·.emit (.ret 0))
  | .choose condition yes no => emitChoice condition yes.emit no.emit

/-- The program of a selection. A condition alone needs no return, as the program ends with `S`. -/
def emitted : Selection → Program
  | .test condition =>
    let (builder, exits) := condition.emit {}
    ((builder.aimAll (exits true)).aimAll (exits false)).code
  | selection => (selection.emit {}).code

end Selection

end PluralForms
