import PluralForms.Operator
import PluralForms.Text.Basic

/-! The instruction set of plural programs. A program works on a register `R`, a status flag `S` and
the count `n`: instructions load `n`, calculate with `R` and a constant, set `S` by a comparison of
`R` with a constant, jump on `S`, or return a constant. -/

namespace PluralForms

/-- What an instruction does, without its constant. -/
inductive Opcode where
  | load
  | arith (op : Arithmetic)
  | loadMod
  | ret
  | jump (on : Bool)
  | test (comparison : Comparison)
  deriving DecidableEq, Repr, Inhabited

namespace Opcode

def all : List Opcode :=
  [.load, .arith .add, .arith .sub, .arith .mul, .arith .div, .arith .mod, .loadMod, .ret,
   .jump true, .jump false,
   .test .eq, .test .ne, .test .lt, .test .le, .test .gt, .test .ge]

/-- The encoding of an opcode, which has one range for each group. -/
def byte : Opcode → UInt8
  | .load => 0x01
  | .arith .add => 0x02
  | .arith .sub => 0x03
  | .arith .mul => 0x04
  | .arith .div => 0x05
  | .arith .mod => 0x06
  | .loadMod => 0x07
  | .ret => 0x10
  | .jump true => 0x20
  | .jump false => 0x21
  | .test .eq => 0x30
  | .test .ne => 0x31
  | .test .lt => 0x32
  | .test .le => 0x33
  | .test .gt => 0x34
  | .test .ge => 0x35

def ofByte? (byte : UInt8) : Option Opcode := all.find? fun op => op.byte == byte

def mnemonic : Opcode → String
  | .load => "N"
  | .arith .add => "ADD"
  | .arith .sub => "SUB"
  | .arith .mul => "MULT"
  | .arith .div => "DIV"
  | .arith .mod => "MOD"
  | .loadMod => "NMOD"
  | .ret => "RET"
  | .jump true => "JMPT"
  | .jump false => "JMPF"
  | .test .eq => "EQ"
  | .test .ne => "NEQ"
  | .test .lt => "LT"
  | .test .le => "LTE"
  | .test .gt => "GT"
  | .test .ge => "GTE"

def ofMnemonic? (name : String) : Option Opcode := all.find? fun op => op.mnemonic == name

/-- Whether the opcode writes `R`. -/
def altersRegister : Opcode → Bool
  | .load | .arith _ | .loadMod => true
  | .ret | .jump _ | .test _ => false

/-- Whether the opcode gives `R` a value that does not depend on the one before. -/
def resetsRegister : Opcode → Bool
  | .load | .loadMod => true
  | _ => false

def isJump : Opcode → Bool
  | .jump _ => true
  | _ => false

/-- Whether the opcode writes `S`. -/
def isTest : Opcode → Bool
  | .test _ => true
  | _ => false

/-- Whether a run ends at the opcode. -/
def isTerminal : Opcode → Bool
  | .ret => true
  | _ => false

/-- Whether the constant has a meaning; a load has one that is never used. -/
def hasOperand : Opcode → Bool
  | .load => false
  | _ => true

/-- The test that sets `S` exactly when this one clears it. -/
def inverse? : Opcode → Option Opcode
  | .test comparison => some (.test comparison.inverse)
  | _ => none

/-- The jump on the other value of `S`. -/
def opposite? : Opcode → Option Opcode
  | .jump on => some (.jump !on)
  | _ => none

/-- The value of `S` after the opcode compares `R` with its constant; false unless it is a test. -/
def compare : Opcode → Int64 → Int64 → Bool
  | .test comparison, r, constant => comparison.holds r constant
  | _, _, _ => false

/-- The value of `R` after the opcode, for the constant `constant` and the count `n`. -/
def apply : Opcode → Int64 → Int64 → Int64 → Int64
  | .load, _, _, n => n
  | .arith op, r, constant, _ => op.apply r constant
  | .loadMod, _, constant, n => Arithmetic.mod.apply n constant
  | _, r, _, _ => r

end Opcode

/-- An instruction. A jump goes to the instruction that lies `offset` places after the next one. The
offset is an integer without a bound, and so is the place that it leads to. In words of 64 bits a
place behind the last one wraps around to a negative one, which lies outside the program as well. -/
inductive Instruction where
  | load (unused : Int64)
  | arith (op : Arithmetic) (operand : Int64)
  | loadMod (operand : Int64)
  | ret (value : Int64)
  | jump (on : Bool) (offset : Int)
  | test (comparison : Comparison) (operand : Int64)
  deriving DecidableEq, Repr, Inhabited

namespace Instruction

def opcode : Instruction → Opcode
  | .load _ => .load
  | .arith op _ => .arith op
  | .loadMod _ => .loadMod
  | .ret _ => .ret
  | .jump on _ => .jump on
  | .test comparison _ => .test comparison

/-- The constant of an instruction: an operand, a result or the offset of a jump. -/
def constant : Instruction → Int
  | .load value | .arith _ value | .loadMod value | .ret value | .test _ value => value.toInt
  | .jump _ offset => offset

def ofParts : Opcode → Int64 → Instruction
  | .load, value => .load value
  | .arith op, value => .arith op value
  | .loadMod, value => .loadMod value
  | .ret, value => .ret value
  | .jump on, value => .jump on value.toInt
  | .test comparison, value => .test comparison value

/-- Whether the instruction writes `R`. -/
def altersRegister (instruction : Instruction) : Bool := instruction.opcode.altersRegister

/-- The written form of an instruction: the name and the constant, if it has a meaning. -/
def text (instruction : Instruction) : String :=
  if instruction.opcode.hasOperand then
    instruction.opcode.mnemonic ++ " " ++ Text.decimal instruction.constant
  else instruction.opcode.mnemonic

/-- Where the jump at index `at` goes; none for other instructions. The result may lie outside the
program. -/
def target? (index : Nat) : Instruction → Option Int
  | .jump _ offset => some (index + 1 + offset)
  | _ => none

/-- Where the jump at index `index` of a program of `size` instructions goes, if it stays in the
program or goes to its end. -/
def landing? (size index : Nat) (instruction : Instruction) : Option Nat :=
  match instruction.target? index with
  | some target => if 0 ≤ target ∧ target ≤ size then some target.toNat else none
  | none => none

/-- The jump with another offset; other instructions are left as they are. -/
def withOffset (offset : Int) : Instruction → Instruction
  | .jump on _ => .jump on offset
  | instruction => instruction

/-- The jump at index `index` aimed at `target`; other instructions are left as they are. -/
def aim (index target : Nat) (instruction : Instruction) : Instruction :=
  instruction.withOffset (target - (index + 1))

end Instruction

end PluralForms
