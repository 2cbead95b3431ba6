import PluralForms.Program

/-! Removal of marked instructions from a program. Every jump that stays is aimed anew: if its
target is removed, at the next instruction that stays. -/

namespace PluralForms.Program

/-- For each index of a program and for its end, the number of instructions before it that stay,
which is the new index of the first of those that stay from there on. The marks tell which
instructions are removed, and `kept` stay before the first of them. -/
def newIndices (kept : Nat) : List Bool → List Nat
  | [] => [kept]
  | gone :: rest => kept :: newIndices (if gone then kept else kept + 1) rest

/-- The instruction at `index` of a program of `size` instructions as it stands after the removal. A
jump that leaves the program keeps its offset. -/
def relocated (places : Array Nat) (size index : Nat) (instruction : Instruction) : Instruction :=
  match instruction.landing? size index, places[index]? with
  | some target, some place => instruction.aim place (places.getD target 0)
  | _, _ => instruction

/-- The program without the instructions marked in `removed`. -/
def remove (program : Program) (removed : List Bool) : Program :=
  let places := (newIndices 0 removed).toArray
  let size := program.length
  (program.zipIdx.zip removed).filterMap fun ((instruction, index), gone) =>
    if gone then none else some (relocated places size index instruction)

/-- The program without the instructions that `gone` holds of, given with their indices. -/
def removeWhere (program : Program) (gone : Instruction → Nat → Bool) : Program :=
  program.remove (program.zipIdx.map fun (instruction, index) => gone instruction index)

/-- How many instructions `holds` holds of, given with their indices. -/
def countWhere (program : Program) (holds : Instruction → Nat → Bool) : Nat :=
  program.zipIdx.countP fun (instruction, index) => holds instruction index

end PluralForms.Program
