import PluralForms.Proofs.Arm.Processor

/-! The words of the instructions in use: the processor fetches each from its four bytes, and
decodes it to the operation that it stands for. -/

namespace PluralForms.Arm

open Native (littleEndian32)
open Native.Arm (Register field threeRegisters displacementField moveFields relationCode)

/-- The operation that an instruction stands for. -/
def operation : Native.Arm.Instruction → Operation
  | .movz target half part => .moveZero target half part.toBitVec
  | .movk target half part => .moveKeep target half part.toBitVec
  | .mov target source => .or target xzr source
  | .add target left right => .add target left right
  | .sub target left right => .subtract target left right
  | .mul target left right => .multiplyAdd target left right xzr
  | .sdiv target left right => .divide target left right
  | .msub target left right minuend => .multiplySubtract target left right minuend
  | .cmpImmediate left right => .compareImmediate xzr left right
  | .cmp left right => .compare xzr left right
  | .cset target relation =>
    .selectIncrement target xzr xzr (BitVec.ofNat 4 (relationCode relation ^^^ 1).toNat)
  | .branch relation displacement =>
    .branch (BitVec.ofNat 4 (relationCode relation).toNat)
      (4 * (displacement.toBitVec.setWidth 19).toInt)
  | .branchZero source displacement =>
    .branchZero source (4 * (displacement.toBitVec.setWidth 19).toInt)
  | .branchNonzero source displacement =>
    .branchNonzero source (4 * (displacement.toBitVec.setWidth 19).toInt)
  | .ret => .ret

/-! ### Parts of a word -/

/-- Bits below a place are put in by addition. -/
theorem or_eq_add {a b : Nat} (place : Nat) (hb : b < 2 ^ place) :
    a * 2 ^ place ||| b = a * 2 ^ place + b := by
  rw [Nat.mul_comm, Nat.two_pow_add_eq_or_of_lt hb]

theorem toNat_shiftLeft {x place : UInt32} {number k : Nat} (hx : x.toNat = number)
    (hplace : place.toNat = k) (hk : k < 32) (hroom : number * 2 ^ k < 2 ^ 32) :
    (x <<< place).toNat = number * 2 ^ k := by
  rw [UInt32.toNat_shiftLeft, hx, hplace, Nat.mod_eq_of_lt hk, Nat.shiftLeft_eq,
    Nat.mod_eq_of_lt hroom]

theorem toNat_field (register : Register) {place : UInt32} {k : Nat} (hplace : place.toNat = k)
    (hk : k ≤ 16) : (field register place).toNat = register.val * 2 ^ k := by
  have hlt := register.isLt
  have hpow : 2 ^ k ≤ 2 ^ 16 := Nat.pow_le_pow_right (by decide) hk
  have hmul : register.val * 2 ^ k ≤ 31 * 2 ^ 16 := Nat.mul_le_mul (by omega) hpow
  have hnumber : (UInt32.ofNat register.val).toNat = register.val :=
    UInt32.toNat_ofNat_of_lt' (by rw [UInt32.size]; omega)
  exact toNat_shiftLeft hnumber hplace (by omega) (by omega)

/-! ### Instructions on registers -/

/-- A word with registers and six bits in their middle. -/
def registerWord (top : Nat) (right : Register) (middle : Nat) (left target : Register) : Nat :=
  top * 2 ^ 21 + right.val * 2 ^ 16 + middle * 2 ^ 10 + left.val * 2 ^ 5 + target.val

section RegisterWord

variable {top middle : Nat} {left right target : Register} {instruction : Native.Arm.Instruction}

/-- No instruction with an immediate starts with these bits. -/
def NoImmediate (top : Nat) : Prop :=
  top / 4 ≠ 0x1A5 ∧ top / 4 ≠ 0x1E5 ∧ top / 2 ≠ 0x3C4 ∧ top / 8 ≠ 0x54 ∧ top / 8 ≠ 0xB4 ∧
    top / 8 ≠ 0xB5 ∧ top ≠ 0x6B2

instance : Decidable (NoImmediate top) := by
  unfold NoImmediate
  infer_instance

theorem decode_registerWord (htop : top < 2 ^ 11) (hmiddle : middle < 64)
    (hother : NoImmediate top) :
    decode (registerWord top right middle left target) =
      decodeRegisters top right middle left target := by
  have hleft := left.isLt
  have hright := right.isLt
  have htarget := target.isLt
  generalize hword : registerWord top right middle left target = word
  rw [registerWord] at hword
  have htop' : bits word 21 11 = top := by rw [bits]; omega
  have hmiddle' : bits word 10 6 = middle := by rw [bits]; omega
  have hright' : registerAt word 16 = right := Fin.ext (by
    show word / 2 ^ 16 % 2 ^ 5 % 32 = right.val
    omega)
  have hleft' : registerAt word 5 = left := Fin.ext (by
    show word / 2 ^ 5 % 2 ^ 5 % 32 = left.val
    omega)
  have htarget' : registerAt word 0 = target := Fin.ext (by
    show word / 2 ^ 0 % 2 ^ 5 % 32 = target.val
    omega)
  have h23 : bits word 23 9 = top / 4 := by rw [bits]; omega
  have h22 : bits word 22 10 = top / 2 := by rw [bits]; omega
  have h24 : bits word 24 8 = top / 8 := by rw [bits]; omega
  obtain ⟨h1, h2, h3, h4, h5, h6, h7⟩ := hother
  have hret : word ≠ 0xD65F03C0 := by omega
  rw [decode, h22, h23, h24, htop', hmiddle', hright', hleft', htarget', if_neg h1, if_neg h2,
    if_neg h3, if_neg fun h => h4 h.1, if_neg h5, if_neg h6, if_neg hret]

theorem toNat_or_threeRegisters {base : UInt32} (hmiddle : middle < 64)
    (hbase : base.toNat = top * 2 ^ 21 ||| middle * 2 ^ 10) :
    (base ||| threeRegisters target left right).toNat =
      registerWord top right middle left target := by
  have hleft := left.isLt
  have hright := right.isLt
  have htarget := target.isLt
  have hword : registerWord top right middle left target =
      top * 2 ^ 21 ||| (right.val * 2 ^ 16 ||| (middle * 2 ^ 10 |||
        (left.val * 2 ^ 5 ||| target.val))) := by
    rw [or_eq_add 5 (by omega), or_eq_add 10 (by omega), or_eq_add 16 (by omega),
      or_eq_add 21 (by omega), registerWord]
    omega
  rw [threeRegisters, UInt32.toNat_or, UInt32.toNat_or, UInt32.toNat_or, hbase,
    toNat_field right rfl (by decide), toNat_field left rfl (by decide),
    toNat_field target rfl (by decide), hword]
  simp only [UInt32.reduceToNat, Nat.pow_zero, Nat.mul_one]
  ac_rfl

theorem decode_or_threeRegisters {base : UInt32} (top middle : Nat)
    (hbase : base.toNat = top * 2 ^ 21 ||| middle * 2 ^ 10) (htop : top < 2 ^ 11)
    (hmiddle : middle < 64) (hother : NoImmediate top) :
    decode (base ||| threeRegisters target left right).toNat =
      decodeRegisters top right middle left target := by
  rw [toNat_or_threeRegisters hmiddle hbase, decode_registerWord htop hmiddle hother]

end RegisterWord

/-! ### Instructions with immediates -/

/-- A word with the part of a constant and its place. -/
def moveWord (top : Nat) (half : Fin 4) (part : UInt16) (target : Register) : Nat :=
  top * 2 ^ 23 + half.val * 2 ^ 21 + part.toNat * 2 ^ 5 + target.val

theorem toNat_or_moveFields (top : Nat) {base : UInt32} {target : Register} {half : Fin 4}
    {part : UInt16} (hbase : base.toNat = top * 2 ^ 23) :
    (base ||| moveFields target half part).toNat = moveWord top half part target := by
  have hhalf := half.isLt
  have hpart := part.toNat_lt
  have htarget := target.isLt
  have hnumber : (UInt32.ofNat half.val).toNat = half.val :=
    UInt32.toNat_ofNat_of_lt' (by rw [UInt32.size]; omega)
  have hplace : (UInt32.ofNat half.val <<< 21).toNat = half.val * 2 ^ 21 :=
    toNat_shiftLeft hnumber rfl (by decide) (by omega)
  have hconstant : (part.toUInt32 <<< 5).toNat = part.toNat * 2 ^ 5 :=
    toNat_shiftLeft part.toNat_toUInt32 rfl (by decide) (by omega)
  rw [moveFields, UInt32.toNat_or, UInt32.toNat_or, UInt32.toNat_or, hbase, hplace, hconstant,
    toNat_field target (k := 0) rfl (by decide), Nat.pow_zero, Nat.mul_one, Nat.or_assoc,
    or_eq_add 5 (by omega), or_eq_add 21 (by omega), or_eq_add 23 (by omega), moveWord]
  omega

theorem parts_moveWord {top : Nat} {half : Fin 4} {part : UInt16} {target : Register}
    (htop : top < 2 ^ 9) :
    bits (moveWord top half part target) 23 9 = top ∧
      halfOf (bits (moveWord top half part target) 21 2) = half ∧
      BitVec.ofNat 16 (bits (moveWord top half part target) 5 16) = part.toBitVec ∧
      registerAt (moveWord top half part target) 0 = target := by
  have hhalf := half.isLt
  have hpart := part.toNat_lt
  have htarget := target.isLt
  generalize hword : moveWord top half part target = word
  rw [moveWord] at hword
  refine ⟨by rw [bits]; omega, Fin.ext ?_, ?_, Fin.ext ?_⟩
  · show word / 2 ^ 21 % 2 ^ 2 % 4 = half.val
    omega
  · have hbits : bits word 5 16 = part.toNat := by rw [bits]; omega
    rw [hbits, ← UInt16.toNat_toBitVec, BitVec.ofNat_toNat, BitVec.setWidth_eq]
  · show word / 2 ^ 0 % 2 ^ 5 % 32 = target.val
    omega

/-- A word with the displacement of a branch, and five bits below it. -/
def branchWord (top : Nat) (displacement : Int32) (low : Nat) : Nat :=
  top * 2 ^ 24 + displacement.toUInt32.toNat % 2 ^ 19 * 2 ^ 5 + low

theorem toNat_or_displacementField (top : Nat) {base last : UInt32} {low : Nat}
    {displacement : Int32} (hbase : base.toNat = top * 2 ^ 24) (hlast : last.toNat = low)
    (hlow : low < 32) :
    (base ||| displacementField displacement ||| last).toNat = branchWord top displacement low := by
  have hmask : (displacement.toUInt32 &&& 0x7FFFF).toNat = displacement.toUInt32.toNat % 2 ^ 19 :=
    Nat.and_two_pow_sub_one_eq_mod _ 19
  have hfield : (displacementField displacement).toNat =
      displacement.toUInt32.toNat % 2 ^ 19 * 2 ^ 5 :=
    toNat_shiftLeft hmask rfl (by decide) (by omega)
  rw [UInt32.toNat_or, UInt32.toNat_or, hbase, hfield, hlast, Nat.or_assoc,
    or_eq_add 5 (by omega), or_eq_add 24 (by omega), branchWord]
  omega

/-- The opcode of a branch, read where other instructions have theirs. -/
theorem top_branchWord {top low : Nat} {displacement : Int32} (htop : top < 2 ^ 8)
    (hlow : low < 32) :
    bits (branchWord top displacement low) 23 9 / 2 = top ∧
      bits (branchWord top displacement low) 22 10 / 4 = top ∧
      bits (branchWord top displacement low) 24 8 = top := by
  rw [bits, bits, bits, branchWord]
  omega

theorem parts_branchWord {top low : Nat} {displacement : Int32} (hlow : low < 32) :
    bits (branchWord top displacement low) 0 5 = low ∧
      displacementOf (branchWord top displacement low) =
        4 * (displacement.toBitVec.setWidth 19).toInt := by
  have hlow' : bits (branchWord top displacement low) 0 5 = low := by
    rw [bits, branchWord]
    omega
  have hbits : bits (branchWord top displacement low) 5 19 =
      displacement.toUInt32.toNat % 2 ^ 19 := by
    rw [bits, branchWord]
    omega
  have hnumber : BitVec.ofNat 19 (displacement.toUInt32.toNat % 2 ^ 19) =
      displacement.toBitVec.setWidth 19 := by
    apply BitVec.eq_of_toNat_eq
    rw [BitVec.toNat_ofNat, BitVec.toNat_setWidth, Nat.mod_mod]
    rfl
  rw [displacementOf, hbits, hnumber]
  exact ⟨hlow', rfl⟩

theorem decode_branchWord {relation : Comparison} {displacement : Int32} :
    decode (branchWord 0x54 displacement (relationCode relation).toNat) =
      some (operation (.branch relation displacement)) := by
  have hcode : (relationCode relation).toNat < 16 := by cases relation <;> decide
  obtain ⟨h23, h22, h24⟩ :=
    @top_branchWord 0x54 _ displacement (by decide) (Nat.lt_trans hcode (by decide))
  obtain ⟨hlow, hdisplacement⟩ :=
    @parts_branchWord 0x54 _ displacement (Nat.lt_trans hcode (by decide))
  generalize branchWord 0x54 displacement (relationCode relation).toNat = word at *
  have hzero : bits word 4 1 = 0 := by
    rw [bits] at hlow ⊢
    omega
  have hcondition : bits word 0 4 = (relationCode relation).toNat := by
    rw [bits] at hlow ⊢
    omega
  rw [decode, if_neg (by omega), if_neg (by omega), if_neg (by omega), if_pos ⟨h24, hzero⟩,
    hcondition, hdisplacement, operation]

theorem decode_compareBranchWord {source : Register} {displacement : Int32} :
    decode (branchWord 0xB4 displacement source.val) =
        some (operation (.branchZero source displacement)) ∧
      decode (branchWord 0xB5 displacement source.val) =
        some (operation (.branchNonzero source displacement)) := by
  have hsource : registerOf source.val = source := Fin.ext (Nat.mod_eq_of_lt source.isLt)
  constructor
  · obtain ⟨h23, h22, h24⟩ := @top_branchWord 0xB4 _ displacement (by decide) source.isLt
    obtain ⟨hlow, hdisplacement⟩ := @parts_branchWord 0xB4 _ displacement source.isLt
    generalize branchWord 0xB4 displacement source.val = word at *
    rw [decode, if_neg (by omega), if_neg (by omega), if_neg (by omega), if_neg (by omega),
      if_pos h24, registerAt, hlow, hsource, hdisplacement, operation]
  · obtain ⟨h23, h22, h24⟩ := @top_branchWord 0xB5 _ displacement (by decide) source.isLt
    obtain ⟨hlow, hdisplacement⟩ := @parts_branchWord 0xB5 _ displacement source.isLt
    generalize branchWord 0xB5 displacement source.val = word at *
    rw [decode, if_neg (by omega), if_neg (by omega), if_neg (by omega), if_neg (by omega),
      if_neg (by omega), if_pos h24, registerAt, hlow, hsource, hdisplacement, operation]

theorem decode_cmpImmediate (left : Register) (right : BitVec 12) :
    decode (Native.Arm.Instruction.cmpImmediate left right).word.toNat =
      some (.compareImmediate xzr left right) := by
  have hleft := left.isLt
  have hright := right.isLt
  have hnumber : (UInt32.ofNat right.toNat).toNat = right.toNat :=
    UInt32.toNat_ofNat_of_lt' (by rw [UInt32.size]; omega)
  have hplace : (UInt32.ofNat right.toNat <<< 10).toNat = right.toNat * 2 ^ 10 :=
    toNat_shiftLeft hnumber rfl (by decide) (by omega)
  have hword : (Native.Arm.Instruction.cmpImmediate left right).word.toNat =
      0x3C4 * 2 ^ 22 + right.toNat * 2 ^ 10 + left.val * 2 ^ 5 + 31 := by
    have hbase : (0xF100001F : UInt32).toNat = 0x3C4 * 2 ^ 22 ||| 31 := by decide
    rw [Native.Arm.Instruction.word, UInt32.toNat_or, UInt32.toNat_or, hbase, hplace,
      toNat_field left (k := 5) rfl (by decide), Nat.or_assoc, Nat.or_assoc, Nat.or_comm 31,
      Nat.or_assoc, or_eq_add 5 (by omega), or_eq_add 10 (by omega), or_eq_add 22 (by omega)]
    omega
  generalize (Native.Arm.Instruction.cmpImmediate left right).word.toNat = word at *
  have hhigh : bits word 23 9 ≠ 0x1A5 ∧ bits word 23 9 ≠ 0x1E5 := by
    rw [bits]
    omega
  have htop : bits word 22 10 = 0x3C4 := by rw [bits]; omega
  have htarget : registerAt word 0 = xzr := Fin.ext (by
    show word / 2 ^ 0 % 2 ^ 5 % 32 = 31
    omega)
  have hleft' : registerAt word 5 = left := Fin.ext (by
    show word / 2 ^ 5 % 2 ^ 5 % 32 = left.val
    omega)
  have hright' : bits word 10 12 = right.toNat := by rw [bits]; omega
  rw [decode, if_neg hhigh.1, if_neg hhigh.2, if_pos htop, htarget, hleft', hright',
    BitVec.ofNat_toNat, BitVec.setWidth_eq]

/-! ### All instructions -/

theorem decode_word (instruction : Native.Arm.Instruction) :
    decode (instruction.word.toNat) = some (operation instruction) := by
  cases instruction with
  | add target left right =>
    rw [Native.Arm.Instruction.word,
      decode_or_threeRegisters 0x458 0 (by decide) (by decide) (by decide) (by decide)]
    rfl
  | sub target left right =>
    rw [Native.Arm.Instruction.word,
      decode_or_threeRegisters 0x658 0 (by decide) (by decide) (by decide) (by decide)]
    rfl
  | mul target left right =>
    rw [Native.Arm.Instruction.word,
      decode_or_threeRegisters 0x4D8 31 (by decide) (by decide) (by decide) (by decide)]
    rfl
  | sdiv target left right =>
    rw [Native.Arm.Instruction.word,
      decode_or_threeRegisters 0x4D6 3 (by decide) (by decide) (by decide) (by decide)]
    rfl
  | mov target source =>
    have hword : (Native.Arm.Instruction.mov target source).word =
        0xAA000000 ||| threeRegisters target 31 source := by
      have hbase : (0xAA0003E0 : UInt32) = 0xAA000000 ||| field 31 5 := by decide
      rw [Native.Arm.Instruction.word, threeRegisters, hbase, UInt32.or_assoc 0xAA000000,
        UInt32.or_comm (field 31 5), UInt32.or_assoc]
    rw [hword, decode_or_threeRegisters 0x550 0 (by decide) (by decide) (by decide) (by decide)]
    rfl
  | cmp left right =>
    have hword : (Native.Arm.Instruction.cmp left right).word =
        0xEB000000 ||| threeRegisters 31 left right := by
      have hbase : (0xEB00001F : UInt32) = 0xEB000000 ||| field 31 0 := by decide
      rw [Native.Arm.Instruction.word, threeRegisters, hbase, UInt32.or_assoc, UInt32.or_assoc,
        UInt32.or_comm (field 31 0)]
    rw [hword, decode_or_threeRegisters 0x758 0 (by decide) (by decide) (by decide) (by decide)]
    rfl
  | msub target left right minuend =>
    have hlt := minuend.isLt
    have hbase : (0x9B008000 ||| field minuend 10 : UInt32).toNat =
        0x4D8 * 2 ^ 21 ||| (32 + minuend.val) * 2 ^ 10 := by
      have hmiddle : (32 + minuend.val) * 2 ^ 10 = 1 * 2 ^ 15 ||| minuend.val * 2 ^ 10 := by
        rw [or_eq_add 15 (by omega)]
        omega
      have hopcode : (0x9B008000 : UInt32).toNat = 0x4D8 * 2 ^ 21 ||| 1 * 2 ^ 15 := by decide
      rw [UInt32.toNat_or, toNat_field minuend rfl (by decide), hmiddle, hopcode, Nat.or_assoc]
      rfl
    rw [Native.Arm.Instruction.word,
      decode_or_threeRegisters 0x4D8 (32 + minuend.val) hbase (by decide) (by omega) (by decide)]
    have hregister : registerOf (32 + minuend.val) = minuend := Fin.ext (by
      show (32 + minuend.val) % 32 = minuend.val
      omega)
    simp only [decodeRegisters, operation, hregister, if_neg (show ¬32 + minuend.val < 32 by omega)]
  | cset target relation =>
    have hword : (Native.Arm.Instruction.cset target relation).word =
        ((0x9A800400 : UInt32) ||| (relationCode relation ^^^ 1) <<< 12) |||
          threeRegisters target 31 31 := by
      rw [Native.Arm.Instruction.word, threeRegisters, UInt32.or_assoc 0x9A800400,
        UInt32.or_comm (field 31 16), ← UInt32.or_assoc, UInt32.or_assoc, UInt32.or_assoc,
        UInt32.or_assoc (field 31 16)]
    have hbase : ((0x9A800400 : UInt32) ||| (relationCode relation ^^^ 1) <<< 12).toNat =
        0x4D4 * 2 ^ 21 ||| ((relationCode relation ^^^ 1).toNat * 4 + 1) * 2 ^ 10 := by
      cases relation <;> decide
    have hcode : (relationCode relation ^^^ 1).toNat < 16 := by cases relation <;> decide
    rw [hword, decode_or_threeRegisters 0x4D4 _ hbase (by decide) (by omega) (by decide)]
    cases relation <;> rfl
  | movz target half part =>
    obtain ⟨htop, hhalf, hpart, htarget⟩ := @parts_moveWord 0x1A5 half part target (by decide)
    rw [Native.Arm.Instruction.word, toNat_or_moveFields 0x1A5 rfl]
    simp only [decode, htop, if_true, hhalf, hpart, htarget, operation]
  | movk target half part =>
    obtain ⟨htop, hhalf, hpart, htarget⟩ := @parts_moveWord 0x1E5 half part target (by decide)
    rw [Native.Arm.Instruction.word, toNat_or_moveFields 0x1E5 rfl]
    simp only [decode, htop, hhalf, hpart, htarget, operation]
    rfl
  | branch relation displacement =>
    have hcode : (relationCode relation).toNat < 32 := by cases relation <;> decide
    rw [Native.Arm.Instruction.word, toNat_or_displacementField 0x54 rfl rfl hcode,
      decode_branchWord]
  | branchZero source displacement =>
    rw [Native.Arm.Instruction.word, toNat_or_displacementField 0xB4 rfl
      (toNat_field source (k := 0) rfl (by decide)) (by omega), Nat.pow_zero, Nat.mul_one]
    exact decode_compareBranchWord.1
  | branchNonzero source displacement =>
    rw [Native.Arm.Instruction.word, toNat_or_displacementField 0xB5 rfl
      (toNat_field source (k := 0) rfl (by decide)) (by omega), Nat.pow_zero, Nat.mul_one]
    exact decode_compareBranchWord.2
  | cmpImmediate left right => exact decode_cmpImmediate left right
  | ret => rfl

theorem fetch_encode (instruction : Native.Arm.Instruction) {bytes rest : List UInt8}
    {position : Nat} (haligned : position % 4 = 0)
    (h : bytes.drop position = instruction.encode ++ rest) :
    fetch bytes position = some instruction.word.toNat := by
  have hlt := instruction.word.toNat_lt
  rw [fetch, h, Native.Arm.Instruction.encode, littleEndian32]
  dsimp only [List.cons_append, List.nil_append]
  rw [if_pos haligned]
  simp only [UInt32.toNat_toUInt8, UInt32.toNat_shiftRight, UInt32.reduceToNat,
    Nat.shiftRight_eq_div_pow, Nat.reduceMod, Nat.reducePow]
  congr 1
  omega

end PluralForms.Arm
