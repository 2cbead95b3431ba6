import PluralForms.Program

/-! The machine that runs plural programs. A run starts at index 0 with `R` equal to the count and
`S` clear, and a run past the last instruction yields `S`. `exec` gives the result of every run that
ends; `run` also stops at a jump that leaves the program, and after a number of steps. -/

namespace PluralForms.Machine

/-- The index of the next instruction, the register and the status. -/
structure State where
  index : Nat
  register : Int64
  status : Bool
  deriving DecidableEq, Repr

/-- The state in which a run for the count `n` starts. -/
def State.start (n : Int64) : State := ⟨0, n, false⟩

/-- What an instruction leads to: a further state or the end of the run. -/
inductive Step where
  | next (state : State)
  | done (value : Int64)
  deriving DecidableEq, Repr

/-- The index that a jump by `offset` reaches from the instruction at `index`. A jump that leaves
the program reaches the index past its end. -/
def jumpIndex (size index : Nat) (offset : Int) : Nat :=
  let target := (index : Int) + 1 + offset
  if 0 ≤ target ∧ target ≤ size then target.toNat else size

def step (program : Program) (n : Int64) (state : State) : Step :=
  match program[state.index]? with
  | none => .done (wordOfBool state.status)
  | some (.ret value) => .done value
  | some (.jump on offset) =>
    if state.status = on then
      .next { state with index := jumpIndex program.length state.index offset }
    else .next { state with index := state.index + 1 }
  | some (.test comparison operand) =>
    .next ⟨state.index + 1, state.register, comparison.holds state.register operand⟩
  | some (.load _) => .next ⟨state.index + 1, n, state.status⟩
  | some (.arith op operand) =>
    .next ⟨state.index + 1, op.apply state.register operand, state.status⟩
  | some (.loadMod operand) =>
    .next ⟨state.index + 1, Arithmetic.mod.apply n operand, state.status⟩

/-- The result of a run that ends within `fuel` steps. -/
def execFrom (program : Program) (n : Int64) : Nat → State → Option Int64
  | 0, _ => none
  | fuel + 1, state =>
    match step program n state with
    | .done value => some value
    | .next state => execFrom program n fuel state

/-- The number of states with an index up to the end of the program. A run that takes more steps has
been in some state twice, and never ends. -/
def stateCount (program : Program) : Nat := (program.length + 1) * UInt64.size * 2

/-- The result of the program for the count `n`; none if the run never ends. -/
def exec (program : Program) (n : Int64) : Option Int64 :=
  execFrom program n (stateCount program) (.start n)

/-! ### Checked runs -/

/-- Why a checked run stops without a result. -/
inductive Fault where
  | outOfBounds (jump : InvalidJump)
  | stepLimit (limit : Nat)
  deriving DecidableEq, Repr

def Fault.message : Fault → String
  | .outOfBounds jump => jump.message
  | .stepLimit limit => s!"Execution exceeded {limit} steps"

/-- The number of steps that a checked run may take unless it is told otherwise. -/
def defaultStepLimit : Nat := 65536

/-- A checked run from a state on, of which `left` steps remain of `limit`. The end of the program
takes no step. -/
def runFrom (program : Program) (n : Int64) (limit : Nat) : Nat → State → Except Fault Int64
  | left, state =>
    match program[state.index]? with
    | none => .ok (wordOfBool state.status)
    | some instruction =>
      match left with
      | 0 => .error (.stepLimit limit)
      | left + 1 =>
        match instruction with
        | .ret value => .ok value
        | .jump on offset =>
          if state.status = on then
            match program.landing? state.index with
            | some target => runFrom program n limit left { state with index := target }
            | none => .error (.outOfBounds ⟨state.index, offset⟩)
          else runFrom program n limit left { state with index := state.index + 1 }
        | .test comparison operand =>
          let status := comparison.holds state.register operand
          runFrom program n limit left { state with index := state.index + 1, status }
        | .load _ | .arith _ _ | .loadMod _ =>
          let register :=
            instruction.opcode.apply state.register (Int64.ofInt instruction.constant) n
          runFrom program n limit left { state with index := state.index + 1, register }

/-- The result of the checked run for the count `n`, which may take `limit` steps. -/
def run (program : Program) (limit : Nat) (n : Int64) : Except Fault Int64 :=
  runFrom program n limit limit (.start n)

/-- The states before each of the next `limit` steps, as far as the run goes. -/
def statesFrom (program : Program) (n : Int64) : Nat → State → List State
  | 0, _ => []
  | limit + 1, state =>
    match program[state.index]? with
    | none => []
    | some _ =>
      match step program n state with
      | .done _ => [state]
      | .next after => state :: statesFrom program n limit after

/-- The states before each of the first `limit` steps of the run for the count `n`. -/
def states (program : Program) (limit : Nat) (n : Int64) : List State :=
  statesFrom program n limit (.start n)

end PluralForms.Machine
