import PluralForms.Native.X86
import PluralForms.Proofs.Words
import PluralForms.Proofs.X86.Processor

/-! What the processor calculates on words: immediates of 32 bits stand for the constants of a
program, the flags of a comparison tell every relation between signed words, and the division by a
constant that native code is made for raises no exception. -/

namespace PluralForms.X86

open Native.X86 (int32?)

theorem toInt_of_int32? {x : Int} {small : Int32} (h : int32? x = some small) :
    small.toInt = x := by
  rw [int32?, Option.ite_none_right_eq_some] at h
  obtain ⟨⟨hlow, hhigh⟩, heq⟩ := h
  rw [← Option.some.inj heq, Int32.toInt_ofInt_of_le hlow hhigh]

/-- A constant that fits in 32 bits is extended to itself. -/
theorem signExtend_of_int32? {value : Int64} {small : Int32}
    (h : int32? value.toInt = some small) : small.toBitVec.signExtend 64 = value.toBitVec := by
  apply BitVec.eq_of_toInt_eq
  rw [BitVec.toInt_signExtend_of_le (by decide), Int32.toInt_toBitVec, Int64.toInt_toBitVec,
    toInt_of_int32? h]

/-! ### Comparisons -/

theorem holds_eq_ofOrder (flags : Flags) (relation : Comparison) :
    flags.holds relation = relation.ofOrder flags.zero (flags.sign != flags.overflow) := by
  obtain ⟨zero, sign, overflow⟩ := flags
  revert zero sign overflow
  cases relation <;> decide

/-- After a comparison, the conditions are the relations between the signed operands. -/
theorem holds_compareFlags (relation : Comparison) (a b : Int64) :
    (compareFlags a.toBitVec b.toBitVec).holds relation = relation.holds a b := by
  rw [holds_eq_ofOrder]
  exact ofOrder_difference relation a b

theorem holds_inverse (flags : Flags) (relation : Comparison) :
    flags.holds relation.inverse = !flags.holds relation := by
  obtain ⟨zero, sign, overflow⟩ := flags
  revert zero sign overflow
  cases relation <;> decide

/-- A byte that is set by a condition and extended to the word is the truth value. -/
theorem setWidth_setByte (x : BitVec 64) (b : Bool) :
    BitVec.setWidth 64 (BitVec.setWidth 8
      (x.extractLsb' 8 56 ++ (if b then 1 else 0 : BitVec 8) : BitVec 64)) =
      (wordOfBool b).toBitVec := by
  rw [BitVec.setWidth_append_eq_right]
  cases b <;> decide

/-- A test of the status with itself tells the status. -/
theorem holds_test (on status : Bool) :
    (resultFlags ((wordOfBool status).toBitVec &&& (wordOfBool status).toBitVec) false).holds
      (if on then .ne else .eq) = (status == on) := by
  cases on <;> cases status <;> decide

/-! ### Divisions -/

/-- The sign of the low word in the high word makes a double word of the same value. -/
theorem dividend_eq (a : BitVec 64) :
    (if a.msb then -1 else 0 : BitVec 64).toInt * 0x10000000000000000 + a.toNat = a.toInt := by
  rw [BitVec.toInt_eq_msb_cond a]
  cases a.msb
  · simp
  · have hminus : (-1 : BitVec 64).toInt = -1 := by decide
    simp only [if_true, hminus]
    omega

/-- The quotient fits in a word unless the divisor is 0 or -1. -/
theorem tdiv_bounds {a value : Int64} (hzero : value ≠ 0) (hminus : value ≠ -1) :
    value.toInt ≠ 0 ∧ -0x8000000000000000 ≤ a.toInt.tdiv value.toInt ∧
      a.toInt.tdiv value.toInt < 0x8000000000000000 := by
  have hzero' : value.toInt ≠ 0 := fun h => hzero (Int64.toInt_inj.mp h)
  have hminus' : value.toInt ≠ -1 := fun h => hminus (Int64.toInt_inj.mp h)
  have hlow := a.le_toInt
  have hhigh := a.toInt_lt
  refine ⟨hzero', ?_⟩
  generalize a.toInt = x at *
  generalize value.toInt = y at *
  by_cases hone : y = 1
  · subst hone
    rw [Int.tdiv_one]
    exact ⟨hlow, hhigh⟩
  · have habs : (x.tdiv y).natAbs ≤ 2 ^ 63 / 2 := by
      rw [Int.natAbs_tdiv]
      exact Nat.div_le_div (by omega) (by omega) (by decide)
    omega

end PluralForms.X86
