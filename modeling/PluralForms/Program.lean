import PluralForms.Instruction

/-! Programs, which are lists of instructions that start at index 0. A jump may go to any index of
the program and to the index past its last instruction, where a run ends. -/

namespace PluralForms

/-- The instructions in order. -/
abbrev Program := List Instruction

/-- A jump that leaves its program. -/
structure InvalidJump where
  index : Nat
  offset : Int
  deriving DecidableEq, Repr

def InvalidJump.message (jump : InvalidJump) : String :=
  s!"Jump at {jump.index} with offset {Text.decimal jump.offset} leaves the program"

namespace Program

def text (program : Program) : String := "; ".intercalate (program.map Instruction.text)

/-- Where the jump at `index` goes, if there is one and it stays in the program. -/
def landing? (program : Program) (index : Nat) : Option Nat :=
  (program[index]?).bind (Instruction.landing? program.length index)

/-- The first jump that leaves the program; a program without one is valid. -/
def invalidJump? (program : Program) : Option InvalidJump :=
  let size := program.length
  program.zipIdx.findSome? fun
    | (.jump on offset, index) =>
      match (Instruction.jump on offset).landing? size index with
      | some _ => none
      | none => some ⟨index, offset⟩
    | _ => none

def isValid (program : Program) : Bool := program.invalidJump?.isNone

/-- No jump goes backward, so no run of the program is endless. -/
def isForward (program : Program) : Bool :=
  program.all fun
    | .jump _ offset => 0 ≤ offset
    | _ => true

def endsWithRet (program : Program) : Bool :=
  match program.getLast? with
  | some (.ret _) => true
  | _ => false

/-- The places where the jumps land, in the order of the jumps. -/
def landings (program : Program) : List Nat :=
  let size := program.length
  program.zipIdx.filterMap fun (instruction, index) => instruction.landing? size index

/-- Some jump lands on `index`. -/
def isTarget (program : Program) (index : Nat) : Bool := program.landings.contains index

/-- For each index, up to the one past the last instruction, whether some jump lands on it. -/
def targets (program : Program) : Array Bool :=
  program.landings.foldl (fun marks index => marks.setIfInBounds index true)
    (Array.replicate (program.length + 1) false)

/-! ### Listings -/

/-- The target of the jump at `index` as a word of 64 bits, in or out of the program. -/
def jumpTarget? (program : Program) (index : Nat) : Option Int64 :=
  ((program[index]?).bind (Instruction.target? index)).map Int64.ofInt

/-- The instruction at `index` as a listing shows it: a jump with the place that it goes to. -/
def describe (program : Program) (index : Nat) : String :=
  match program[index]?, program.jumpTarget? index with
  | none, _ => "???"
  | some instruction, none => instruction.text
  | some instruction, some target =>
    let place :=
      if target.toInt = program.length then "end" else Text.paddedDecimal 4 target.toInt
    s!"{instruction.opcode.mnemonic} {Text.signedDecimal instruction.constant} -> {place}"

/-- One line for each instruction, with its index. -/
def listing (program : Program) : String :=
  let line (index : Nat) := s!"{Text.paddedDecimal 4 index} {program.describe index}\n"
  String.join ((List.range program.length).map line)

end Program

end PluralForms
