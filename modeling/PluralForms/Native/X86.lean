import PluralForms.Native.Isa

/-! Code for x86-64 with the calling convention of System V. The count stays in `rdi`, `R` is `rax`
and `S` is `r8`; `r11` and `rdx` hold operands and remainders of divisions. -/

namespace PluralForms.Native.X86

/-- The instructions in use. An immediate of 32 bits is extended with its sign. -/
inductive Instruction where
  | movRaxRdi
  | movRaxRdx
  | movRaxR8
  | movRax (value : Int32)
  | movabsRax (value : Int64)
  | movR11 (value : Int32)
  | movabsR11 (value : Int64)
  | xorR8
  | addRax (value : Int32)
  | subRax (value : Int32)
  | imulRax (value : Int32)
  | cqo
  | idivR11
  | cmpRax (value : Int32)
  | setR8 (relation : Comparison)
  | movzxR8
  | testR8
  | jump (relation : Comparison) (displacement : Int32)
  | ret
  deriving DecidableEq, Repr

/-- The code of a relation between signed words in branches and in instructions that set a byte. -/
def relationCode : Comparison → UInt8
  | .eq => 0x4
  | .ne => 0x5
  | .lt => 0xC
  | .ge => 0xD
  | .le => 0xE
  | .gt => 0xF

def Instruction.encode : Instruction → List UInt8
  | .movRaxRdi => [0x48, 0x89, 0xF8]
  | .movRaxRdx => [0x48, 0x89, 0xD0]
  | .movRaxR8 => [0x4C, 0x89, 0xC0]
  | .movRax value => [0x48, 0xC7, 0xC0] ++ littleEndian32 value.toUInt32
  | .movabsRax value => [0x48, 0xB8] ++ littleEndian64 value.toUInt64
  | .movR11 value => [0x49, 0xC7, 0xC3] ++ littleEndian32 value.toUInt32
  | .movabsR11 value => [0x49, 0xBB] ++ littleEndian64 value.toUInt64
  | .xorR8 => [0x45, 0x31, 0xC0]
  | .addRax value => [0x48, 0x05] ++ littleEndian32 value.toUInt32
  | .subRax value => [0x48, 0x2D] ++ littleEndian32 value.toUInt32
  | .imulRax value => [0x48, 0x69, 0xC0] ++ littleEndian32 value.toUInt32
  | .cqo => [0x48, 0x99]
  | .idivR11 => [0x49, 0xF7, 0xFB]
  | .cmpRax value => [0x48, 0x3D] ++ littleEndian32 value.toUInt32
  | .setR8 relation => [0x41, 0x0F, 0x90 + relationCode relation, 0xC0]
  | .movzxR8 => [0x45, 0x0F, 0xB6, 0xC0]
  | .testR8 => [0x4D, 0x85, 0xC0]
  | .jump relation displacement =>
    [0x0F, 0x80 + relationCode relation] ++ littleEndian32 displacement.toUInt32
  | .ret => [0xC3]

/-- The integer as a signed word of 32 bits, if it fits. -/
def int32? (x : Int) : Option Int32 :=
  if -0x80000000 ≤ x ∧ x < 0x80000000 then some (Int32.ofInt x) else none

def loadOperand (value : Int64) : Instruction :=
  match int32? value.toInt with
  | some small => .movR11 small
  | none => .movabsR11 value

/-- The instruction with a constant as its immediate. -/
def immediate (instruction : Int32 → Instruction) (value : Int64) : Emission Instruction :=
  match int32? value.toInt with
  | some small => ⟨[instruction small], none⟩
  | none => ⟨[], some (.immediateOutOfRange value)⟩

/-- Divides `rax`, with the remainder in `rdx`. The division traps for 0, and for the least word
divided by -1. -/
def divide (before : List Instruction) (value : Int64) (after : List Instruction) :
    Emission Instruction :=
  if value = 0 || value = -1 then ⟨before, some (.unsupportedDivisor value)⟩
  else ⟨before ++ [loadOperand value, .cqo, .idivR11] ++ after, none⟩

def arith : Opcode → Int64 → Emission Instruction
  | .load, _ => ⟨[.movRaxRdi], none⟩
  | .arith .add, value => immediate .addRax value
  | .arith .sub, value => immediate .subRax value
  | .arith .mul, value => immediate .imulRax value
  | .arith .div, value => divide [] value []
  | .arith .mod, value => divide [] value [.movRaxRdx]
  | .loadMod, value => divide [.movRaxRdi] value [.movRaxRdx]
  | opcode, _ => ⟨[], some (.invalidOpcode opcode)⟩

def compare (relation : Comparison) (value : Int64) : Emission Instruction :=
  let comparison := immediate .cmpRax value
  if comparison.error?.isSome then comparison
  else { comparison with code := comparison.code ++ [.setR8 relation, .movzxR8] }

/-- The number of bytes of a branch, whose displacement counts from its end. -/
def jumpSize : Nat := 6

def aim (branch : Instruction) (distance : Int) : Except Error Instruction :=
  match branch with
  | .jump relation _ =>
    match int32? distance with
    | some displacement => .ok (.jump relation displacement)
    | none => .error (.displacementOutOfRange distance)
  | other => .ok other

def isa : Isa Instruction where
  name := "x86_64"
  encode := Instruction.encode
  prologue := [.movRaxRdi, .xorR8]
  loadCount := [.movRaxRdi]
  arith := arith
  compare := compare
  branchOnFlags relation := .jump relation 0
  branchOnStatus on := ([.testR8], .jump (if on then .ne else .eq) 0)
  ret value :=
    match int32? value.toInt with
    | some small => [.movRax small, .ret]
    | none => [.movabsRax value, .ret]
  retStatus := [.movRaxR8, .ret]
  origin := jumpSize
  aim := aim

end PluralForms.Native.X86
