import PluralForms.Optimizer.RegisterState

/-! The register analysis of a program: for each instruction, what is known about `R` whenever a run
comes to it, and nothing for the instructions that no path reaches. It is the least solution of the
equations of the control flow, found by following the edges until nothing new comes to be known. -/

namespace PluralForms

/-- The places to which control may pass from the instruction at `index` of a program of `size`
instructions, where `size` stands for the end. A jump that leaves the program ends the run. -/
def Instruction.successors (size index : Nat) (instruction : Instruction) : List Nat :=
  match instruction with
  | .ret _ => []
  | .jump _ _ => [index + 1, (instruction.landing? size index).getD size]
  | _ => [index + 1]

namespace Analysis

/-- What is known at the start of each instruction; none where no path is known to lead. -/
abbrev Entries := Array (Option RegisterState)

/-- The state at the start of the instruction at `index`. -/
def stateIn (entries : Entries) (index : Nat) : Option RegisterState := (entries[index]?).join

/-- What comes to be known at a place when control passes to it with `incoming`; none if that is
nothing new. Where two paths meet with different states, the register is unknown. -/
def join? (incoming : RegisterState) : Option RegisterState → Option RegisterState
  | none => some incoming
  | some .unknown => none
  | some known => if known = incoming then none else some .unknown

/-- Lets control pass to `target` with the state `incoming`. The places where something new came to
be known, and whose successors have to be visited for that reason, are kept in front. -/
def visit (incoming : RegisterState) (search : List Nat × Entries) (target : Nat) :
    List Nat × Entries :=
  let (pending, entries) := search
  match (entries[target]?).bind (join? incoming) with
  | some state => (target :: pending, entries.setIfInBounds target (some state))
  | none => (pending, entries)

/-- Lets control pass on from the pending places until there are none, for at most `fuel` places. -/
def solveFrom (code : Array Instruction) : Nat → List Nat → Entries → Entries
  | fuel + 1, index :: pending, entries =>
    match stateIn entries index, code[index]? with
    | some state, some instruction =>
      let next := state.after instruction
      let (pending, entries) :=
        (instruction.successors code.size index).foldl (visit next) (pending, entries)
      solveFrom code fuel pending entries
    | _, _ => solveFrom code fuel pending entries
  | _, _, entries => entries

/-- The entries of a program. Each entry changes at most twice, from none over a known state to an
unknown one, which bounds the number of places to pass on from. -/
def solve (program : Program) : Entries :=
  solveFrom program.toArray (2 * program.length + 1) [0]
    ((Array.replicate program.length none).setIfInBounds 0 (some .initial))

end Analysis

/-- The register states of a program and the places where its jumps land. -/
structure Analysis where
  entries : Analysis.Entries
  targets : Array Bool

namespace Analysis

def of (program : Program) : Analysis := ⟨solve program, program.targets⟩

/-- The state at the start of the instruction at `index`; none if no path leads there. -/
def state? (analysis : Analysis) (index : Nat) : Option RegisterState :=
  stateIn analysis.entries index

/-- Some path leads from the start of the program to `index`. -/
def isReachable (analysis : Analysis) (index : Nat) : Bool := (analysis.state? index).isSome

/-- `R` holds the count at the start of the instruction at `index`. -/
def holdsCount (analysis : Analysis) (index : Nat) : Bool :=
  analysis.state? index = some .initial

/-- Some jump lands on `index`. -/
def isTarget (analysis : Analysis) (index : Nat) : Bool := analysis.targets.getD index false

end Analysis

end PluralForms
