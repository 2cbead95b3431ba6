import PluralForms.Program

/-! What native code needs of an instruction set, and code as it is written. A function takes the
count as its argument, keeps `R` and `S` in registers, and returns the result. -/

namespace PluralForms.Native

/-- Why native code cannot be made. -/
inductive Error where
  | emptyProgram
  | immediateOutOfRange (value : Int64)
  | displacementOutOfRange (displacement : Int)
  | unsupportedDivisor (value : Int64)
  | invalidOpcode (opcode : Opcode)
  | invalidJump (jump : InvalidJump)
  deriving DecidableEq, Repr

def Error.message : Error → String
  | .emptyProgram => "Empty program"
  | .immediateOutOfRange value => s!"Immediate out of range: {Text.decimal value.toInt}"
  | .displacementOutOfRange displacement =>
    s!"Branch displacement out of range: {Text.decimal displacement}"
  | .unsupportedDivisor value => s!"Unsupported divisor: {Text.decimal value.toInt}"
  | .invalidOpcode opcode =>
    "Invalid opcode: 0x" ++ String.ofList (Nat.toDigits 16 opcode.byte.toNat)
  | .invalidJump jump => jump.message

/-- Instructions, and the error that kept others from being written after them. -/
structure Emission (ι : Type) where
  code : List ι
  error? : Option Error := none

def Emission.complete {ι : Type} (emission : Emission ι) : Except Error (List ι) :=
  match emission.error? with
  | none => .ok emission.code
  | some error => .error error

/-- An instruction set with instructions of type `ι`, and the code of each step of a program in it.
-/
structure Isa (ι : Type) where
  name : String
  /-- The bytes of an instruction. -/
  encode : ι → List UInt8
  /-- Sets `R` to the count and clears `S`. -/
  prologue : List ι
  /-- Sets `R` to the count. -/
  loadCount : List ι
  /-- Writes `R` as an opcode with a constant does. -/
  arith : Opcode → Int64 → Emission ι
  /-- Compares `R` with a constant; the flags and `S` hold the outcome. -/
  compare : Comparison → Int64 → Emission ι
  /-- Branches where the flags of the comparison before tell that a relation holds. -/
  branchOnFlags : Comparison → ι
  /-- Code and a branch after it that goes where `S` has a value. -/
  branchOnStatus : Bool → List ι × ι
  /-- Returns a constant. -/
  ret : Int64 → List ι
  /-- Returns `S`. -/
  retStatus : List ι
  /-- The number of bytes from the start of a branch to the place from which its distance counts. -/
  origin : Nat
  /-- A branch aimed at the place that lies `distance` bytes after the one it counts from. -/
  aim : ι → (distance : Int) → Except Error ι

/-- The bytes of a word of 32 bits, the lowest first. -/
def littleEndian32 (word : UInt32) : List UInt8 :=
  [word.toUInt8, (word >>> 8).toUInt8, (word >>> 16).toUInt8, (word >>> 24).toUInt8]

/-- The bytes of a word of 64 bits, the lowest first. -/
def littleEndian64 (word : UInt64) : List UInt8 :=
  littleEndian32 word.toUInt32 ++ littleEndian32 (word >>> 32).toUInt32

variable {ι : Type}

def Isa.bytes (isa : Isa ι) (code : List ι) : List UInt8 := code.flatMap isa.encode

/-- The number of bytes of a list of instructions. -/
def Isa.size (isa : Isa ι) (code : List ι) : Nat := (isa.bytes code).length

/-! ### Code as it is written -/

/-- The instructions written so far, and which of them are branches that await their targets. -/
structure Buffer (ι : Type) where
  code : List ι := []
  branches : List Nat := []

namespace Buffer

def append (buffer : Buffer ι) (code : List ι) : Buffer ι :=
  { buffer with code := buffer.code ++ code }

def appendBranch (buffer : Buffer ι) (branch : ι) : Buffer ι :=
  ⟨buffer.code ++ [branch], buffer.branches ++ [buffer.code.length]⟩

/-- The byte offset of the instruction with the given index. -/
def offset (isa : Isa ι) (buffer : Buffer ι) (index : Nat) : Nat :=
  isa.size (buffer.code.take index)

def position (isa : Isa ι) (buffer : Buffer ι) : Nat := isa.size buffer.code

def sites (isa : Isa ι) (buffer : Buffer ι) : List Nat := buffer.branches.map (buffer.offset isa)

/-- Aims the branch that was written as number `number`, from 0 on, at a byte offset. The distance
is a word of 64 bits, so offsets of 2⁶³ bytes and more lie before the code. -/
def aimBranch (isa : Isa ι) (buffer : Buffer ι) (number : Nat) (target : UInt64) :
    Except Error (Buffer ι) :=
  match buffer.branches[number]? with
  | none => .ok buffer
  | some index =>
    match buffer.code[index]? with
    | none => .ok buffer
    | some branch => do
      let start := Int64.ofNat (buffer.offset isa index + isa.origin)
      let aimed ← isa.aim branch (target.toInt64 - start).toInt
      return { buffer with code := buffer.code.set index aimed }

end Buffer

end PluralForms.Native
