import PluralForms.Operator
import PluralForms.Proofs.Transition

/-! The part of the x86-64 architecture that plural formulas need: instructions on registers of 64
bits, with immediates, and relative branches. Machine code is a list of bytes that runs from its
start, and each instruction is decoded from the bytes at the place where it is come to. -/

namespace PluralForms.X86

/-- General registers by their numbers in encodings. -/
abbrev Register := Fin 16

namespace Register

def rax : Register := 0

def rdx : Register := 2

def rdi : Register := 7

def r8 : Register := 8

def r11 : Register := 11

end Register

/-- The status flags that signed conditions depend on. -/
structure Flags where
  zero : Bool
  sign : Bool
  overflow : Bool

/-- The condition of a branch or of an instruction that sets a byte. After a comparison it is the
relation between the signed operands. -/
def Flags.holds (flags : Flags) : Comparison → Bool
  | .eq => flags.zero
  | .ne => !flags.zero
  | .lt => flags.sign != flags.overflow
  | .ge => flags.sign == flags.overflow
  | .le => flags.zero || flags.sign != flags.overflow
  | .gt => !flags.zero && flags.sign == flags.overflow

/-- What an instruction does. -/
inductive Operation where
  | move (target source : Register)
  | moveImmediate (target : Register) (value : BitVec 64)
  | xor32 (target source : Register)
  | addImmediate (target : Register) (value : BitVec 64)
  | subImmediate (target : Register) (value : BitVec 64)
  | compareImmediate (first : Register) (value : BitVec 64)
  | multiply (target source : Register) (value : BitVec 64)
  | extendSign
  | divide (divisor : Register)
  | setByte (condition : Comparison) (target : Register)
  | zeroExtendByte (target source : Register)
  | test (first second : Register)
  | jump (condition : Comparison) (displacement : Int)
  | ret

/-! ### Decoding -/

/-- The bits of a prefix byte `0100WRXB`. -/
structure Rex where
  wide : Bool
  reg : Bool
  base : Bool

def Rex.ofByte? (byte : UInt8) : Option Rex :=
  if byte.toNat / 16 = 4 then
    some ⟨byte.toNat.testBit 3, byte.toNat.testBit 2, byte.toNat.testBit 0⟩
  else none

/-- The two registers that a byte `11regrm` tells with the bits of the prefix. Operands in memory
are not needed. -/
def registers? (rex : Rex) (byte : UInt8) : Option (Register × Register) :=
  if byte.toNat / 64 = 3 then
    some (Fin.ofNat 16 (byte.toNat / 8 % 8 + if rex.reg then 8 else 0),
      Fin.ofNat 16 (byte.toNat % 8 + if rex.base then 8 else 0))
  else none

/-- The number that bytes hold, the lowest first. -/
def number (bytes : List UInt8) : Nat := bytes.foldr (fun byte n => byte.toNat + 256 * n) 0

/-- The signed number of 32 bits at the start of the bytes. -/
def immediate32? (bytes : List UInt8) : Option (BitVec 32) :=
  if 4 ≤ bytes.length then some (BitVec.ofNat 32 (number (bytes.take 4))) else none

/-- The number of 64 bits at the start of the bytes. -/
def immediate64? (bytes : List UInt8) : Option (BitVec 64) :=
  if 8 ≤ bytes.length then some (BitVec.ofNat 64 (number (bytes.take 8))) else none

/-- The signed condition with the given number. -/
def condition? : Nat → Option Comparison
  | 0x4 => some .eq
  | 0x5 => some .ne
  | 0xC => some .lt
  | 0xD => some .ge
  | 0xE => some .le
  | 0xF => some .gt
  | _ => none

/-- An instruction whose opcode follows the byte `0F`, and the number of its bytes from there on.
Without a prefix, byte registers have other numbers. -/
def decodeTwoByte (rex : Option Rex) (opcode : UInt8) (rest : List UInt8) :
    Option (Operation × Nat) := do
  let code := opcode.toNat % 16
  match rex, opcode.toNat / 16, rest with
  | none, 0x8, rest =>
    let condition ← condition? code
    let displacement ← immediate32? rest
    return (.jump condition displacement.toInt, 5)
  | some rex, 0x9, modes :: _ =>
    let condition ← condition? code
    let (_, target) ← registers? rex modes
    return (.setByte condition target, 2)
  | some rex, 0xB, modes :: _ =>
    let (target, source) ← registers? rex modes
    if code = 6 ∧ !rex.wide then some (.zeroExtendByte target source, 2) else none
  | _, _, _ => none

/-- An instruction with operands of 64 bits, and the number of its bytes after the prefix. Some
opcodes have a part of their meaning in the register bits of the byte that follows. -/
def decodeWide (rex : Rex) (opcode : UInt8) (rest : List UInt8) : Option (Operation × Nat) := do
  match opcode.toNat, rest with
  | 0x05, rest =>
    let value ← immediate32? rest
    return (.addImmediate .rax (value.signExtend 64), 5)
  | 0x2D, rest =>
    let value ← immediate32? rest
    return (.subImmediate .rax (value.signExtend 64), 5)
  | 0x3D, rest =>
    let value ← immediate32? rest
    return (.compareImmediate .rax (value.signExtend 64), 5)
  | 0x69, modes :: rest =>
    let (target, source) ← registers? rex modes
    let value ← immediate32? rest
    return (.multiply target source (value.signExtend 64), 6)
  | 0x85, modes :: _ =>
    let (second, first) ← registers? rex modes
    return (.test first second, 2)
  | 0x89, modes :: _ =>
    let (source, target) ← registers? rex modes
    return (.move target source, 2)
  | 0x99, _ => return (.extendSign, 1)
  | 0xC7, modes :: rest =>
    let (extension, target) ← registers? { rex with reg := false } modes
    let value ← immediate32? rest
    if extension = 0 then some (.moveImmediate target (value.signExtend 64), 6) else none
  | 0xF7, modes :: _ =>
    let (extension, divisor) ← registers? { rex with reg := false } modes
    if extension = 7 then some (.divide divisor, 2) else none
  | opcode, rest =>
    if opcode / 8 = 0xB8 / 8 then do
      let value ← immediate64? rest
      return (.moveImmediate (Fin.ofNat 16 (opcode % 8 + if rex.base then 8 else 0)) value, 9)
    else none

/-- An instruction and the number of its bytes after the prefix. -/
def decodeOpcode (rex : Option Rex) : List UInt8 → Option (Operation × Nat)
  | 0x0F :: opcode :: rest =>
    (decodeTwoByte rex opcode rest).map fun (operation, size) => (operation, size + 1)
  | opcode :: rest =>
    match rex with
    | none => if opcode = 0xC3 then some (.ret, 1) else none
    | some rex =>
      if rex.wide then decodeWide rex opcode rest
      else
        match opcode, rest with
        | 0x31, modes :: _ =>
          (registers? rex modes).map fun (source, target) => (.xor32 target source, 2)
        | _, _ => none
  | [] => none

/-- The instruction at the start of the bytes and its size. -/
def decode : List UInt8 → Option (Operation × Nat)
  | [] => none
  | first :: rest =>
    match Rex.ofByte? first with
    | some rex => (decodeOpcode (some rex) rest).map fun (operation, size) => (operation, size + 1)
    | none => decodeOpcode none (first :: rest)

/-! ### Execution -/

/-- The place of the next instruction in the code, the registers, the flags, and the number of
instructions so far. -/
structure State where
  position : Nat
  register : Register → BitVec 64
  flags : Flags
  clock : Nat

/-- A register gets a value. -/
def State.set (s : State) (target : Register) (value : BitVec 64) : State :=
  { s with register := fun other => if other = target then value else s.register other }

/-- The flags of a result, where `overflow` tells whether it left the signed range. -/
def resultFlags (value : BitVec 64) (overflow : Bool) : Flags := ⟨value = 0, value.msb, overflow⟩

/-- The flags of the difference of two words. -/
def compareFlags (a b : BitVec 64) : Flags := resultFlags (a - b) (a.ssubOverflow b)

/-- The state after an instruction, or `rax` as a signed word if it returns. `s` stands at the next
instruction already. None if a division by zero or a quotient that does not fit raises an exception,
or if a jump goes before the start of the code. Flags that the architecture leaves undefined are
taken from `undefined`. -/
def Operation.run (undefined : Flags) (s : State) : Operation → Option (State ⊕ Int64)
  | .move target source => some (.inl (s.set target (s.register source)))
  | .moveImmediate target value => some (.inl (s.set target value))
  | .xor32 target source =>
    let value := (s.register target).setWidth 32 ^^^ (s.register source).setWidth 32
    some (.inl
      { s.set target (value.setWidth 64) with flags := ⟨value = 0, value.msb, false⟩ })
  | .addImmediate target value =>
    let a := s.register target
    some (.inl
      { s.set target (a + value) with flags := resultFlags (a + value) (a.saddOverflow value) })
  | .subImmediate target value =>
    let a := s.register target
    some (.inl { s.set target (a - value) with flags := compareFlags a value })
  | .compareImmediate first value =>
    some (.inl { s with flags := compareFlags (s.register first) value })
  | .multiply target source value =>
    let a := s.register source
    some (.inl
      { s.set target (a * value) with
        flags := { undefined with overflow := a.smulOverflow value } })
  | .extendSign => some (.inl (s.set .rdx (if (s.register .rax).msb then -1 else 0)))
  | .divide divisor =>
    let dividend := (s.register .rdx).toInt * 0x10000000000000000 + (s.register .rax).toNat
    let divisor := (s.register divisor).toInt
    let quotient := dividend.tdiv divisor
    if divisor = 0 ∨ quotient < -0x8000000000000000 ∨ 0x8000000000000000 ≤ quotient then none
    else
      let s := s.set .rax (BitVec.ofInt 64 quotient)
      some (.inl { s.set .rdx (BitVec.ofInt 64 (dividend.tmod divisor)) with flags := undefined })
  | .setByte condition target =>
    let byte : BitVec 8 := if s.flags.holds condition then 1 else 0
    some (.inl (s.set target ((s.register target).extractLsb' 8 56 ++ byte)))
  | .zeroExtendByte target source =>
    some (.inl (s.set target (((s.register source).setWidth 8).setWidth 64)))
  | .test first second =>
    some (.inl { s with flags := resultFlags (s.register first &&& s.register second) false })
  | .jump condition displacement =>
    if s.flags.holds condition then
      let target := s.position + displacement
      if 0 ≤ target then some (.inl { s with position := target.toNat }) else none
    else some (.inl s)
  | .ret => some (.inr (.ofBitVec (s.register .rax)))

/-- The runs of machine code. A run that comes to a place where no instruction can be decoded, or to
an exception, has no further step. The flags that instruction number `k` leaves undefined are
`undefined k`. -/
def processor (bytes : List UInt8) (undefined : Nat → Flags) : System State Int64 where
  step s := do
    let (operation, size) ← decode (bytes.drop s.position)
    operation.run (undefined s.clock)
      { s with position := s.position + size, clock := s.clock + 1 }

/-- The places where instructions start if the code is decoded from its start on. -/
inductive Starts (bytes : List UInt8) : Nat → Prop
  | zero : Starts bytes 0
  | next {position size : Nat} {operation : Operation} :
      Starts bytes position → decode (bytes.drop position) = some (operation, size) →
      Starts bytes (position + size)

end PluralForms.X86
