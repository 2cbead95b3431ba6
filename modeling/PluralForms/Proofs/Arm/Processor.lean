import Mathlib.Algebra.Group.Nat.Defs
import PluralForms.Native.Arm
import PluralForms.Proofs.Transition

/-! The part of the AArch64 architecture that plural formulas need: instructions on registers of 64
bits, and relative branches. Machine code is a list of bytes that runs from its start. An
instruction is a word of 32 bits at a multiple of four, the lowest byte first. -/

namespace PluralForms.Arm

open Native.Arm (Register)

/-- The condition flags. -/
structure Flags where
  negative : Bool
  zero : Bool
  carry : Bool
  overflow : Bool

/-- A condition by its four bits. -/
abbrev Condition := BitVec 4

/-- The test that the upper three bits of a condition stand for. -/
def Flags.test (flags : Flags) : Nat → Bool
  | 0 => flags.zero
  | 1 => flags.carry
  | 2 => flags.negative
  | 3 => flags.overflow
  | 4 => flags.carry && !flags.zero
  | 5 => flags.negative == flags.overflow
  | 6 => flags.negative == flags.overflow && !flags.zero
  | _ => true

/-- The lowest bit of a condition inverts its test, except in the condition with all bits. -/
def Flags.holds (flags : Flags) (condition : Condition) : Bool :=
  let outcome := flags.test (condition.toNat / 2)
  if condition.toNat % 2 = 1 ∧ condition ≠ 15 then !outcome else outcome

/-- What an instruction does. -/
inductive Operation where
  | moveZero (target : Register) (half : Fin 4) (part : BitVec 16)
  | moveKeep (target : Register) (half : Fin 4) (part : BitVec 16)
  | or (target left right : Register)
  | add (target left right : Register)
  | subtract (target left right : Register)
  | compare (target left right : Register)
  | compareImmediate (target left : Register) (value : BitVec 12)
  | multiplyAdd (target left right addend : Register)
  | multiplySubtract (target left right minuend : Register)
  | divide (target left right : Register)
  | selectIncrement (target left right : Register) (condition : Condition)
  | branch (condition : Condition) (displacement : Int)
  | branchZero (source : Register) (displacement : Int)
  | branchNonzero (source : Register) (displacement : Int)
  | ret

/-! ### Decoding -/

/-- The number in the bits of a word from `place` on. -/
def bits (word place width : Nat) : Nat := word / 2 ^ place % 2 ^ width

/-- The register with the number in the lowest five bits. -/
def registerOf (number : Nat) : Register := ⟨number % 32, Nat.mod_lt _ (by decide)⟩

/-- The register with its number in the bits from `place` on. -/
def registerAt (word place : Nat) : Register := registerOf (bits word place 5)

/-- The quarter of a register with the number in the lowest two bits. -/
def halfOf (number : Nat) : Fin 4 := ⟨number % 4, Nat.mod_lt _ (by decide)⟩

/-- The displacement of a branch, which is given in words. -/
def displacementOf (word : Nat) : Int := 4 * (BitVec.ofNat 19 (bits word 5 19)).toInt

/-- An instruction on registers alone. The bits in the middle of its word hold a shift, which is not
needed, another register, or a condition. -/
def decodeRegisters (top : Nat) (right : Register) (middle : Nat) (left target : Register) :
    Option Operation :=
  match top with
  | 0x458 => if middle = 0 then some (.add target left right) else none
  | 0x550 => if middle = 0 then some (.or target left right) else none
  | 0x658 => if middle = 0 then some (.subtract target left right) else none
  | 0x758 => if middle = 0 then some (.compare target left right) else none
  | 0x4D4 =>
    if middle % 4 = 1 then
      some (.selectIncrement target left right (BitVec.ofNat 4 (middle / 4)))
    else none
  | 0x4D6 => if middle = 3 then some (.divide target left right) else none
  | 0x4D8 =>
    if middle < 32 then some (.multiplyAdd target left right (registerOf middle))
    else some (.multiplySubtract target left right (registerOf middle))
  | _ => none

/-- The instruction of a word. A return takes its address from register 30. -/
def decode (word : Nat) : Option Operation :=
  let half := halfOf (bits word 21 2)
  let part : BitVec 16 := BitVec.ofNat 16 (bits word 5 16)
  if bits word 23 9 = 0x1A5 then some (.moveZero (registerAt word 0) half part)
  else if bits word 23 9 = 0x1E5 then some (.moveKeep (registerAt word 0) half part)
  else if bits word 22 10 = 0x3C4 then
    some (.compareImmediate (registerAt word 0) (registerAt word 5)
      (BitVec.ofNat 12 (bits word 10 12)))
  else if bits word 24 8 = 0x54 ∧ bits word 4 1 = 0 then
    some (.branch (BitVec.ofNat 4 (bits word 0 4)) (displacementOf word))
  else if bits word 24 8 = 0xB4 then some (.branchZero (registerAt word 0) (displacementOf word))
  else if bits word 24 8 = 0xB5 then some (.branchNonzero (registerAt word 0) (displacementOf word))
  else if word = 0xD65F03C0 then some .ret
  else
    decodeRegisters (bits word 21 11) (registerAt word 16) (bits word 10 6) (registerAt word 5)
      (registerAt word 0)

/-- The word at a place of the code. -/
def fetch (bytes : List UInt8) (position : Nat) : Option Nat :=
  match bytes.drop position with
  | first :: second :: third :: fourth :: _ =>
    if position % 4 = 0 then
      some (first.toNat + 2 ^ 8 * second.toNat + 2 ^ 16 * third.toNat + 2 ^ 24 * fourth.toNat)
    else none
  | _ => none

/-! ### Execution -/

/-- The place of the instruction in the code, the registers with the stack pointer as the last, and
the flags. Number 31 is the stack pointer for some instructions, and always zero for the others. -/
structure State where
  position : Nat
  register : Register → BitVec 64
  flags : Flags

/-- Number 31 where it is always zero. -/
def xzr : Register := ⟨31, by decide⟩

/-- The value of a register where number 31 is zero. -/
def State.read (s : State) (source : Register) : BitVec 64 :=
  if source = xzr then 0 else s.register source

/-- A register gets a value where number 31 is zero. -/
def State.write (s : State) (target : Register) (value : BitVec 64) : State :=
  { s with register := fun other =>
      if other = target ∧ target ≠ xzr then value else s.register other }

/-- The state before the next instruction in the code. -/
def State.next (s : State) : State := { s with position := s.position + 4 }

/-- The state after a branch. None if it goes before the start of the code. -/
def State.branch (s : State) (taken : Bool) (displacement : Int) : Option (State ⊕ Int64) :=
  if taken then
    let target := s.position + displacement
    if 0 ≤ target then some (.inl { s with position := target.toNat }) else none
  else some (.inl s.next)

/-- The flags of the difference of two words. The carry tells that nothing was borrowed. -/
def compareFlags (a b : BitVec 64) : Flags :=
  ⟨(a - b).msb, a - b = 0, b.toNat ≤ a.toNat, a.ssubOverflow b⟩

/-- The state after an instruction, or `x0` as a signed word if it returns. -/
def Operation.run (s : State) : Operation → Option (State ⊕ Int64)
  | .moveZero target half part =>
    some (.inl (s.next.write target (part.setWidth 64 <<< (16 * half.val))))
  | .moveKeep target half part =>
    let others := s.read target &&& ~~~((0xFFFF : BitVec 64) <<< (16 * half.val))
    some (.inl (s.next.write target (others ||| part.setWidth 64 <<< (16 * half.val))))
  | .or target left right => some (.inl (s.next.write target (s.read left ||| s.read right)))
  | .add target left right => some (.inl (s.next.write target (s.read left + s.read right)))
  | .subtract target left right => some (.inl (s.next.write target (s.read left - s.read right)))
  | .compare target left right =>
    let s' := s.next.write target (s.read left - s.read right)
    some (.inl { s' with flags := compareFlags (s.read left) (s.read right) })
  | .compareImmediate target left value =>
    -- The left operand may be the stack pointer.
    let s' := s.next.write target (s.register left - value.setWidth 64)
    some (.inl { s' with flags := compareFlags (s.register left) (value.setWidth 64) })
  | .multiplyAdd target left right addend =>
    some (.inl (s.next.write target (s.read addend + s.read left * s.read right)))
  | .multiplySubtract target left right minuend =>
    some (.inl (s.next.write target (s.read minuend - s.read left * s.read right)))
  | .divide target left right =>
    let divisor := s.read right
    let quotient := if divisor = 0 then 0 else (s.read left).toInt.tdiv divisor.toInt
    some (.inl (s.next.write target (BitVec.ofInt 64 quotient)))
  | .selectIncrement target left right condition =>
    let value := if s.flags.holds condition then s.read left else s.read right + 1
    some (.inl (s.next.write target value))
  | .branch condition displacement => s.branch (s.flags.holds condition) displacement
  | .branchZero source displacement => s.branch (s.read source = 0) displacement
  | .branchNonzero source displacement => s.branch (s.read source ≠ 0) displacement
  | .ret => some (.inr (.ofBitVec (s.read Native.Arm.result)))

/-- The runs of machine code. A run that comes to a place where no instruction can be decoded has no
further step. -/
def processor (bytes : List UInt8) : System State Int64 where
  step s := do
    let word ← fetch bytes s.position
    let operation ← decode word
    operation.run s

/-- The processor stands at an instruction that lies in the code as a whole, and executes it. -/
structure Proceeds (bytes : List UInt8) (s : State) : Prop where
  aligned : s.position % 4 = 0
  inside : s.position + 4 ≤ bytes.length
  step : (processor bytes).step s ≠ none

end PluralForms.Arm
