import PluralForms.Proofs.Arm.Processor
import PluralForms.Proofs.Words

/-! What the processor calculates on words: the flags of a comparison tell every relation between
signed words, a product taken from the dividend leaves the remainder, and a word that is written in
quarters holds each of them. -/

namespace PluralForms.Arm

open Native.Arm (halfword relationCode)

/-! ### Comparisons -/

/-- The condition that a relation has in encodings. -/
def conditionOf (relation : Comparison) : Condition := BitVec.ofNat 4 (relationCode relation).toNat

theorem holds_conditionOf (flags : Flags) (relation : Comparison) :
    flags.holds (conditionOf relation) =
      relation.ofOrder flags.zero (flags.negative != flags.overflow) := by
  obtain ⟨negative, zero, carry, overflow⟩ := flags
  revert negative zero carry overflow
  cases relation <;> decide

/-- After a comparison, the conditions are the relations between the signed operands. -/
theorem holds_compareFlags (relation : Comparison) (a b : Int64) :
    (compareFlags a.toBitVec b.toBitVec).holds (conditionOf relation) = relation.holds a b := by
  rw [holds_conditionOf]
  exact ofOrder_difference relation a b

theorem holds_inverse (flags : Flags) (relation : Comparison) :
    flags.holds (conditionOf relation.inverse) = !flags.holds (conditionOf relation) := by
  obtain ⟨negative, zero, carry, overflow⟩ := flags
  revert negative zero carry overflow
  cases relation <;> decide

/-- The condition with the lowest bit changed is the opposite one. -/
theorem holds_opposite (flags : Flags) (relation : Comparison) :
    flags.holds (BitVec.ofNat 4 (relationCode relation ^^^ 1).toNat) =
      !flags.holds (conditionOf relation) := by
  obtain ⟨negative, zero, carry, overflow⟩ := flags
  revert negative zero carry overflow
  cases relation <;> decide

/-- A constant of 12 bits is compared as it is. -/
theorem setWidth_ofInt {constant : Int64} (h : 0 ≤ constant ∧ constant < 4096) :
    (BitVec.ofInt 12 constant.toInt).setWidth 64 = constant.toBitVec := by
  have hlow : 0 ≤ constant.toInt := Int64.le_iff_toInt_le.mp h.1
  have hhigh : constant.toInt < 4096 := Int64.lt_iff_toInt_lt.mp h.2
  apply BitVec.eq_of_toNat_eq
  rw [← BitVec.ofInt_int64ToInt constant]
  simp only [BitVec.toNat_setWidth, BitVec.toNat_ofInt]
  omega

/-! ### Divisions -/

/-- A division by another word than zero wraps as the machine's does. -/
theorem ofInt_quotient {a value : Int64} (hvalue : value ≠ 0) :
    BitVec.ofInt 64 (if value.toBitVec = 0 then 0 else a.toBitVec.toInt.tdiv value.toBitVec.toInt) =
      (a / value).toBitVec := by
  have hzero : value.toBitVec ≠ 0 := fun h => hvalue (Int64.toBitVec_inj.mp h)
  rw [if_neg hzero, Int64.toInt_toBitVec, Int64.toInt_toBitVec, ofInt_tdiv]

/-! ### Displacements -/

/-- A displacement of 19 bits is kept by a branch. -/
theorem toInt_setWidth {displacement : Int} (hlow : -0x40000 ≤ displacement)
    (hhigh : displacement < 0x40000) :
    ((Int32.ofInt displacement).toBitVec.setWidth 19).toInt = displacement := by
  have hbits : (Int32.ofInt displacement).toBitVec = BitVec.ofInt 32 displacement := rfl
  rw [hbits, BitVec.toInt_setWidth, BitVec.toNat_ofInt]
  have hmod : ((displacement % (2 ^ 32 : Nat)).toNat : Int) = displacement % (2 ^ 32 : Nat) :=
    Int.toNat_of_nonneg (Int.emod_nonneg _ (by decide))
  rw [hmod]
  simp only [Int.bmod_def]
  split <;> omega

/-! ### Quarters of a word -/

/-- The 16 bits of a word in one of its quarters. -/
def quarter (x : BitVec 64) (half : Fin 4) : BitVec 16 := x.extractLsb' (16 * half.val) 16

/-- A word with another quarter in place of its own. -/
def insert (x : BitVec 64) (half : Fin 4) (part : BitVec 16) : BitVec 64 :=
  x &&& ~~~((0xFFFF : BitVec 64) <<< (16 * half.val)) ||| part.setWidth 64 <<< (16 * half.val)

theorem insert_zero (half : Fin 4) (part : BitVec 16) :
    insert 0 half part = part.setWidth 64 <<< (16 * half.val) := by
  simp [insert]

theorem toBitVec_halfword (constant : Int64) (half : Fin 4) :
    (halfword constant half).toBitVec = quarter constant.toBitVec half := by
  match half with
  | 0 | 1 | 2 | 3 => rfl

theorem getLsbD_mask (k : Nat) : (0xFFFF : BitVec 64).getLsbD k = decide (k < 16) := by
  have hmask : (0xFFFF : BitVec 64) = (BitVec.allOnes 16).setWidth 64 := by decide
  rw [hmask, BitVec.getLsbD_setWidth, BitVec.getLsbD_allOnes, ← Bool.decide_and]
  exact decide_eq_decide.mpr (by omega)

theorem quarter_insert (x : BitVec 64) (half other : Fin 4) (part : BitVec 16) :
    quarter (insert x half part) other = if other = half then part else quarter x other := by
  have hhalf := half.isLt
  have hother := other.isLt
  apply BitVec.eq_of_getLsbD_eq
  intro k hk
  have hinside : 16 * other.val + k < 64 := by omega
  have hbits : (quarter (insert x half part) other).getLsbD k =
      ((x.getLsbD (16 * other.val + k) &&
          !(!decide (16 * other.val + k < 16 * half.val) &&
            decide (16 * other.val + k - 16 * half.val < 16))) ||
        (!decide (16 * other.val + k < 16 * half.val) &&
          part.getLsbD (16 * other.val + k - 16 * half.val))) := by
    simp only [quarter, insert, BitVec.getLsbD_extractLsb', BitVec.getLsbD_or, BitVec.getLsbD_and,
      BitVec.getLsbD_not, BitVec.getLsbD_shiftLeft, BitVec.getLsbD_setWidth, getLsbD_mask]
    simp [hk, hinside, show 16 * other.val + k - 16 * half.val < 64 by omega]
  rw [hbits]
  by_cases heq : other = half
  · subst heq
    have hat : ¬16 * other.val + k < 16 * other.val := by omega
    rw [if_pos rfl, Nat.add_sub_cancel_left]
    simp [hk, hat]
  · have hval : other.val ≠ half.val := fun h => heq (Fin.ext h)
    rw [if_neg heq, quarter, BitVec.getLsbD_extractLsb', decide_eq_true hk, Bool.true_and]
    by_cases hbelow : 16 * other.val + k < 16 * half.val
    · simp [hbelow]
    · have hpast : ¬16 * other.val + k - 16 * half.val < 16 := by omega
      have hzero : part.getLsbD (16 * other.val + k - 16 * half.val) = false :=
        BitVec.getLsbD_of_ge _ _ (by omega)
      simp [hpast, hzero]

theorem eq_of_quarter_eq {x y : BitVec 64} (h : ∀ half, quarter x half = quarter y half) :
    x = y := by
  apply BitVec.eq_of_getLsbD_eq
  intro k hk
  have hquarter := congrArg (BitVec.getLsbD · (k % 16)) (h ⟨k / 16, by omega⟩)
  have hplace : 16 * (k / 16) + k % 16 = k := by omega
  have hinside : k % 16 < 16 := by omega
  simp only [quarter, BitVec.getLsbD_extractLsb', hplace, decide_eq_true hinside,
    Bool.true_and] at hquarter
  exact hquarter

end PluralForms.Arm
