import PluralForms.Native.X86
import PluralForms.Proofs.X86.Processor

/-! The bytes of the instructions in use: the processor decodes each to the operation that it stands
for, whatever bytes follow. -/

namespace PluralForms.X86

open Native (littleEndian32 littleEndian64)

theorem number_littleEndian32 (word : UInt32) (rest : List UInt8) :
    number ((littleEndian32 word ++ rest).take 4) = word.toNat := by
  have hlt := word.toNat_lt
  simp [littleEndian32, number, Nat.shiftRight_eq_div_pow]
  omega

theorem immediate32?_littleEndian32 (word : UInt32) (rest : List UInt8) :
    immediate32? (littleEndian32 word ++ rest) = some word.toBitVec := by
  rw [immediate32?, if_pos (by simp [littleEndian32]), number_littleEndian32,
    ← UInt32.toNat_toBitVec, BitVec.ofNat_toNat, BitVec.setWidth_eq]

theorem immediate64?_littleEndian64 (word : UInt64) (rest : List UInt8) :
    immediate64? (littleEndian64 word ++ rest) = some word.toBitVec := by
  have hlt := word.toNat_lt
  have hnumber : number ((littleEndian64 word ++ rest).take 8) = word.toNat := by
    simp [littleEndian64, littleEndian32, number, Nat.shiftRight_eq_div_pow]
    omega
  rw [immediate64?, if_pos (by simp [littleEndian64, littleEndian32]), hnumber,
    ← UInt64.toNat_toBitVec, BitVec.ofNat_toNat, BitVec.setWidth_eq]

/-- The operation that an instruction stands for. -/
def operation : Native.X86.Instruction → Operation
  | .movRaxRdi => .move .rax .rdi
  | .movRaxRdx => .move .rax .rdx
  | .movRaxR8 => .move .rax .r8
  | .movRax value => .moveImmediate .rax (value.toBitVec.signExtend 64)
  | .movabsRax value => .moveImmediate .rax value.toBitVec
  | .movR11 value => .moveImmediate .r11 (value.toBitVec.signExtend 64)
  | .movabsR11 value => .moveImmediate .r11 value.toBitVec
  | .xorR8 => .xor32 .r8 .r8
  | .addRax value => .addImmediate .rax (value.toBitVec.signExtend 64)
  | .subRax value => .subImmediate .rax (value.toBitVec.signExtend 64)
  | .imulRax value => .multiply .rax .rax (value.toBitVec.signExtend 64)
  | .cqo => .extendSign
  | .idivR11 => .divide .r11
  | .cmpRax value => .compareImmediate .rax (value.toBitVec.signExtend 64)
  | .setR8 relation => .setByte relation .r8
  | .movzxR8 => .zeroExtendByte .r8 .r8
  | .testR8 => .test .r8 .r8
  | .jump relation displacement => .jump relation displacement.toInt
  | .ret => .ret

theorem decodeTwoByte_jump (relation : Comparison) (rest : List UInt8) :
    decodeTwoByte none (0x80 + Native.X86.relationCode relation) rest = (do
      let displacement ← immediate32? rest
      return (.jump relation displacement.toInt, 5)) := by
  cases relation <;> rfl

theorem decode_encode (instruction : Native.X86.Instruction) (rest : List UInt8) :
    decode (instruction.encode ++ rest) =
      some (operation instruction, instruction.encode.length) := by
  cases instruction with
  | movRaxRdi | movRaxRdx | movRaxR8 | xorR8 | cqo | idivR11 | movzxR8 | testR8 | ret => rfl
  | setR8 relation => cases relation <;> rfl
  | movRax value | movR11 value =>
    simp [decode, Native.X86.Instruction.encode, Rex.ofByte?, decodeOpcode, decodeWide, registers?,
      immediate32?_littleEndian32, operation]
    exact ⟨rfl, rfl, rfl⟩
  | addRax value | subRax value | cmpRax value =>
    simp [decode, Native.X86.Instruction.encode, Rex.ofByte?, decodeOpcode, decodeWide,
      immediate32?_littleEndian32, operation]
    exact ⟨rfl, rfl⟩
  | imulRax value =>
    simp [decode, Native.X86.Instruction.encode, Rex.ofByte?, decodeOpcode, decodeWide, registers?,
      immediate32?_littleEndian32, operation]
    exact ⟨rfl, ⟨rfl, rfl⟩, rfl⟩
  | movabsRax value | movabsR11 value =>
    simp [decode, Native.X86.Instruction.encode, Rex.ofByte?, decodeOpcode, decodeWide,
      immediate64?_littleEndian64, operation]
    exact ⟨rfl, rfl, rfl⟩
  | jump relation displacement =>
    simp [decode, Native.X86.Instruction.encode, Rex.ofByte?, decodeOpcode, decodeTwoByte_jump,
      immediate32?_littleEndian32, operation]
    rfl

end PluralForms.X86
