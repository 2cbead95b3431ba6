import PluralForms.Optimizer.Analysis
import PluralForms.Optimizer.Removal

/-! The passes of the optimizer. Each yields the changed program and the number of its changes, and
none alters the result of a program or makes it longer. -/

namespace PluralForms.Program

/-! ### Loads -/

/-- The instructions from `index` on that alter the register, up to a place where a jump lands. -/
def registerRun (analysis : Analysis) (index : Nat) : Program → Program
  | [] => []
  | instruction :: rest =>
    if instruction.altersRegister && !analysis.isTarget index then
      instruction :: registerRun analysis (index + 1) rest
    else []

/-- How many instructions at the start of a run at `index`, the first of them `first`, calculate
what the register holds already. A single load of the count is not taken. -/
def prefixLength? (analysis : Analysis) (index : Nat) (first : Instruction) (rest : Program) :
    Option Nat := do
  let state ← analysis.state? index
  let length ← state.redundantLength? (first :: registerRun analysis (index + 1) rest)
  if length = 1 && first.opcode = .load then none else some length

/-- The parts of runs from `index` on that calculate what the register holds already, each with its
index and its length. A run starts where an instruction alters the register and the one before does
not, or a jump lands between the two; `inRun` tells whether the one before alters it. -/
def prefixes (analysis : Analysis) (inRun : Bool) (index : Nat) : Program → List (Nat × Nat)
  | [] => []
  | instruction :: rest =>
    let alters := instruction.altersRegister
    let others := prefixes analysis alters (index + 1) rest
    if alters && (!inRun || analysis.isTarget index) then
      match prefixLength? analysis index instruction rest with
      | some length => (index, length) :: others
      | none => others
    else others

/-- Removes the parts of runs that calculate what the register holds already. -/
def eliminatePrefixes (program : Program) : Program × Nat :=
  let cuts := prefixes (Analysis.of program) false 0 program
  (program.removeWhere fun _ index =>
    cuts.any fun (start, length) => start ≤ index && index < start + length, cuts.length)

/-- Whether an instruction, not the first, loads the count where the register holds it. -/
def isRedundantLoad (analysis : Analysis) (instruction : Instruction) (index : Nat) : Bool :=
  index != 0 && instruction.opcode = .load && analysis.holdsCount index

/-- Removes loads of the count where the register holds it already. -/
def eliminateLoads (program : Program) : Program × Nat :=
  let isRedundant := isRedundantLoad (Analysis.of program)
  (program.removeWhere isRedundant, program.countWhere isRedundant)

/-- Removes a load of the count at index 0 if the register holds the count whenever a run comes
there. -/
def removeLeadingLoad (program : Program) : Program × Nat :=
  match program with
  | .load _ :: _ =>
    if (Analysis.of program).holdsCount 0 then (program.removeWhere fun _ index => index = 0, 1)
    else (program, 0)
  | _ => (program, 0)

/-! ### Remainders -/

/-- The operand of a remainder of the count that two instructions from `index` on calculate. -/
def fusible? (code : Array Instruction) (analysis : Analysis) (index : Nat) : Option Int64 :=
  match code[index]?, code[index + 1]? with
  | some (.load _), some (.arith .mod operand) =>
    if analysis.isTarget (index + 1) then none else some operand
  | _, _ => none

/-- Makes one instruction of each load with a remainder after it. -/
def fuseMods (program : Program) : Program × Nat :=
  let analysis := Analysis.of program
  let code := program.toArray
  let fused : Program := program.mapIdx fun index instruction =>
    ((fusible? code analysis index).map Instruction.loadMod).getD instruction
  let isFused (index : Nat) : Bool := (fusible? code analysis index).isSome
  (fused.removeWhere fun _ index => index != 0 && isFused (index - 1),
    program.countWhere fun _ index => isFused index)

/-! ### Jumps -/

/-- Where a jump on the value `on` of the status ends up that comes to `target`, if it comes to rest
within `fuel` steps: the same jumps are taken on the way, and the opposite ones fall through. -/
def settle? (code : Array Instruction) (on : Bool) : Nat → Nat → Option Nat
  | 0, _ => none
  | fuel + 1, target =>
    match code[target]? with
    | some (.jump other offset) =>
      if other = on then
        ((Instruction.jump other offset).landing? code.size target).bind (settle? code on fuel)
      else settle? code on fuel (target + 1)
    | _ => some target

/-- The place where the jump at `index` ends up, if that is not the place where it lands. -/
def shortcut? (code : Array Instruction) (index : Nat) : Option Nat :=
  match code[index]? with
  | some (.jump on offset) => do
    let first ← (Instruction.jump on offset).landing? code.size index
    (settle? code on (code.size + 1) first).filter (· ≠ first)
  | _ => none

/-- Aims jumps that land on jumps at the places where they end up, one after the other. A jump that
never comes to rest stays. -/
def collapseJumps (program : Program) : Program × Nat :=
  let (code, count) := (List.range program.length).foldl
    (fun (code, count) index =>
      match shortcut? code index with
      | some target => (code.modify index (Instruction.aim index target), count + 1)
      | none => (code, count))
    (program.toArray, 0)
  (code.toList, count)

/-- The place past the loads on which a jump lands, if the register holds their result already. -/
def pastLoads? (program : Program) (size : Nat) (analysis : Analysis) (instruction : Instruction)
    (index : Nat) : Option Nat := do
  let target ← instruction.landing? size index
  let state ← analysis.state? index
  let length ← state.redundantLength? ((program.drop target).takeWhile (·.altersRegister))
  return target + length

/-- Aims jumps past the loads on which they land where the register holds their result. -/
def elideLoads (program : Program) : Program × Nat :=
  let pastLoads? := pastLoads? program program.length (Analysis.of program)
  (program.mapIdx fun index instruction =>
    match pastLoads? instruction index with
    | some target => instruction.aim index target
    | none => instruction,
    program.countWhere fun instruction index => (pastLoads? instruction index).isSome)

/-! ### Dead code -/

/-- The number of instructions that no path reaches, and of jumps to the next instruction. -/
structure DeadCount where
  dead : Nat
  idle : Nat
  deriving DecidableEq, Repr

/-- Removes the instructions that no path reaches, and the jumps to the next instruction. -/
def eliminateDead (program : Program) : Program × DeadCount :=
  let analysis := Analysis.of program
  let size := program.length
  let isDead (_ : Instruction) (index : Nat) : Bool := !analysis.isReachable index
  let isIdle (instruction : Instruction) (index : Nat) : Bool :=
    analysis.isReachable index && instruction.landing? size index = some (index + 1)
  let isMarked (instruction : Instruction) (index : Nat) : Bool :=
    isDead instruction index || isIdle instruction index
  (program.removeWhere isMarked, ⟨program.countWhere isDead, program.countWhere isIdle⟩)

end PluralForms.Program
