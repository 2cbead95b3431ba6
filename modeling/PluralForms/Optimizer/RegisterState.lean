import PluralForms.Program
import PluralForms.Selection

/-! What is known about `R` at a place of a program: the operators that give its value from the
count, or nothing. Two places with the same known state hold the same value for every count. -/

namespace PluralForms

/-- Knowledge about the register. The operator that was applied last stands first. -/
inductive RegisterState where
  | known (operators : List (Arithmetic × Int64))
  | unknown
  deriving DecidableEq, Repr

namespace RegisterState

/-- `R` holds the count. -/
def initial : RegisterState := .known []

def isCount (state : RegisterState) : Bool := state = initial

def isKnown : RegisterState → Bool
  | .known _ => true
  | .unknown => false

/-- The operators of a known state in the order of their application. -/
def chain? : RegisterState → Option Chain
  | .known operators => some operators.reverse
  | .unknown => none

/-- What is known after an instruction. -/
def after (state : RegisterState) : Instruction → RegisterState
  | .load _ => initial
  | .loadMod operand => .known [(.mod, operand)]
  | .arith op operand =>
    match state with
    | .known operators => .known ((op, operand) :: operators)
    | .unknown => .unknown
  | .ret _ | .jump _ _ | .test _ _ => state

/-- The length of the longest part at the start of a run that leads from the state `current` to
`goal`. -/
def longestTo? (goal current : RegisterState) : Program → Option Nat
  | [] => none
  | instruction :: rest =>
    let next := current.after instruction
    match longestTo? goal next rest with
    | some length => some (length + 1)
    | none => if next = goal then some 1 else none

/-- The length of the longest part at the start of `run` after which the register is back in the
known state `state`. Such a part calculates what `R` holds already. -/
def redundantLength? (state : RegisterState) (run : Program) : Option Nat :=
  if state.isKnown then longestTo? state state run else none

end RegisterState

end PluralForms
