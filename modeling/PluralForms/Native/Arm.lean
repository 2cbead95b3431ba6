import PluralForms.Native.Isa

/-! Code for AArch64. The count stays in `x0`, `R` is `x9` and `S` is `x10`; `x11` holds operands
and `x12` quotients. -/

namespace PluralForms.Native.Arm

/-- A register by its number. Number 31 is zero. -/
abbrev Register := Fin 32

def count : Register := 0
def result : Register := 0
def value : Register := 9
def status : Register := 10
def operand : Register := 11
def quotient : Register := 12

inductive Instruction where
  | movz (target : Register) (half : Fin 4) (part : UInt16)
  | movk (target : Register) (half : Fin 4) (part : UInt16)
  | mov (target source : Register)
  | add (target left right : Register)
  | sub (target left right : Register)
  | mul (target left right : Register)
  | sdiv (target left right : Register)
  | msub (target left right minuend : Register)
  | cmpImmediate (left : Register) (right : BitVec 12)
  | cmp (left right : Register)
  | cset (target : Register) (relation : Comparison)
  | branch (relation : Comparison) (displacement : Int32)
  | branchZero (source : Register) (displacement : Int32)
  | branchNonzero (source : Register) (displacement : Int32)
  | ret
  deriving DecidableEq, Repr

/-- The code of a relation between signed words. Codes that differ in the lowest bit alone belong to
opposite relations. -/
def relationCode : Comparison → UInt32
  | .eq => 0x0
  | .ne => 0x1
  | .ge => 0xA
  | .lt => 0xB
  | .gt => 0xC
  | .le => 0xD

/-- The number of a register in the bits from `place` on. -/
def field (register : Register) (place : UInt32) : UInt32 := UInt32.ofNat register.val <<< place

def threeRegisters (target left right : Register) : UInt32 :=
  field right 16 ||| field left 5 ||| field target 0

/-- A displacement, in words, in the 19 bits from bit 5 on. -/
def displacementField (displacement : Int32) : UInt32 := (displacement.toUInt32 &&& 0x7FFFF) <<< 5

/-- The part of a constant that a move writes, its place and the target. -/
def moveFields (target : Register) (half : Fin 4) (part : UInt16) : UInt32 :=
  (UInt32.ofNat half.val <<< 21) ||| (part.toUInt32 <<< 5) ||| field target 0

def Instruction.word : Instruction → UInt32
  | .movz target half part => 0xD2800000 ||| moveFields target half part
  | .movk target half part => 0xF2800000 ||| moveFields target half part
  | .mov target source => 0xAA0003E0 ||| field source 16 ||| field target 0
  | .add target left right => 0x8B000000 ||| threeRegisters target left right
  | .sub target left right => 0xCB000000 ||| threeRegisters target left right
  | .mul target left right => 0x9B007C00 ||| threeRegisters target left right
  | .sdiv target left right => 0x9AC00C00 ||| threeRegisters target left right
  | .msub target left right minuend =>
    0x9B008000 ||| field minuend 10 ||| threeRegisters target left right
  | .cmpImmediate left right =>
    (0xF100001F : UInt32) ||| (UInt32.ofNat right.toNat <<< 10) ||| field left 5
  | .cmp left right => 0xEB00001F ||| field right 16 ||| field left 5
  | .cset target relation =>
    (0x9A800400 : UInt32) ||| field 31 16 ||| ((relationCode relation ^^^ 1) <<< 12) |||
      field 31 5 ||| field target 0
  | .branch relation displacement =>
    0x54000000 ||| displacementField displacement ||| relationCode relation
  | .branchZero source displacement =>
    0xB4000000 ||| displacementField displacement ||| field source 0
  | .branchNonzero source displacement =>
    0xB5000000 ||| displacementField displacement ||| field source 0
  | .ret => 0xD65F03C0

def Instruction.encode (instruction : Instruction) : List UInt8 := littleEndian32 instruction.word

/-- The 16 bits of a constant that belong to one place. -/
def halfword (constant : Int64) (half : Fin 4) : UInt16 :=
  (constant.toUInt64 >>> (16 * UInt64.ofNat half.val)).toUInt16

/-- Sets a register to a constant: the lowest part that is not zero clears the others, which are
then written where they are not zero. -/
def loadConstant (target : Register) (constant : Int64) : List Instruction :=
  match [0, 1, 2, 3].filter fun half => halfword constant half != 0 with
  | [] => [.movz target 0 0]
  | first :: rest =>
    .movz target first (halfword constant first) ::
      rest.map fun half => .movk target half (halfword constant half)

/-- Sets `x9` to the remainder of its division by `x11`. -/
def remainder : List Instruction :=
  [.sdiv quotient value operand, .msub value quotient operand value]

def loadCount : List Instruction := [.mov value count]

/-- Calculates with a constant in `x11`. -/
def withOperand (constant : Int64) (code : List Instruction) : Emission Instruction :=
  ⟨loadConstant operand constant ++ code, none⟩

/-- Divides by a constant. A division by zero would yield zero, but its remainder the dividend. -/
def divide (before : List Instruction) (constant : Int64) (code : List Instruction) :
    Emission Instruction :=
  if constant = 0 then ⟨[], some (.unsupportedDivisor constant)⟩
  else ⟨before ++ loadConstant operand constant ++ code, none⟩

def arith : Opcode → Int64 → Emission Instruction
  | .load, _ => ⟨loadCount, none⟩
  | .arith .add, constant => withOperand constant [.add value value operand]
  | .arith .sub, constant => withOperand constant [.sub value value operand]
  | .arith .mul, constant => withOperand constant [.mul value value operand]
  | .arith .div, constant => divide [] constant [.sdiv value value operand]
  | .arith .mod, constant => divide [] constant remainder
  | .loadMod, constant => divide loadCount constant remainder
  | opcode, _ => ⟨[], some (.invalidOpcode opcode)⟩

def compare (relation : Comparison) (constant : Int64) : Emission Instruction :=
  if 0 ≤ constant && constant < 4096 then
    ⟨[.cmpImmediate value (BitVec.ofInt 12 constant.toInt), .cset status relation], none⟩
  else ⟨loadConstant operand constant ++ [.cmp value operand, .cset status relation], none⟩

/-- A branch reaches this many words forward, and as many and one more back. -/
def reach : Int := 0x3FFFF

/-- The displacement of a branch counts words from the branch on. -/
def aim (branch : Instruction) (distance : Int) : Except Error Instruction :=
  let displacement := distance.tdiv 4
  if -reach - 1 ≤ displacement ∧ displacement ≤ reach then
    let small := Int32.ofInt displacement
    match branch with
    | .branch relation _ => .ok (.branch relation small)
    | .branchZero source _ => .ok (.branchZero source small)
    | .branchNonzero source _ => .ok (.branchNonzero source small)
    | other => .ok other
  else .error (.displacementOutOfRange displacement)

def isa : Isa Instruction where
  name := "aarch64"
  encode := Instruction.encode
  prologue := loadCount ++ [.movz status 0 0]
  loadCount := loadCount
  arith := arith
  compare := compare
  branchOnFlags relation := .branch relation 0
  branchOnStatus on := ([], if on then .branchNonzero status 0 else .branchZero status 0)
  ret constant := loadConstant result constant ++ [.ret]
  retStatus := [.mov result status, .ret]
  origin := 0
  aim := aim

end PluralForms.Native.Arm
