import PluralForms.Operator

/-! Signed words by their bits: the difference of two words tells every relation between them, and
quotients and remainders are those of integers. -/

namespace PluralForms

/-! ### Relations -/

/-- The sign of a difference tells which word is less, unless the difference overflows. -/
theorem bmod_sub_lt_zero {x y : Int} (hx : -0x8000000000000000 ≤ x ∧ x < 0x8000000000000000)
    (hy : -0x8000000000000000 ≤ y ∧ y < 0x8000000000000000) :
    ¬((x - y).bmod 0x10000000000000000 < 0 ↔
      0x8000000000000000 ≤ x - y ∨ x - y < -0x8000000000000000) ↔ x < y := by
  rw [Int.bmod_def]
  split <;> omega

theorem sign_bne_overflow (a b : Int64) :
    ((a.toBitVec - b.toBitVec).msb != a.toBitVec.ssubOverflow b.toBitVec) =
      decide (a.toInt < b.toInt) := by
  have h := bmod_sub_lt_zero ⟨a.le_toInt, a.toInt_lt⟩ ⟨b.le_toInt, b.toInt_lt⟩
  rw [Bool.eq_iff_iff, decide_eq_true_iff, ← h, bne_iff_ne, Ne, Bool.eq_iff_iff,
    BitVec.msb_eq_toInt, BitVec.toInt_sub, BitVec.ssubOverflow, Int64.toInt_toBitVec,
    Int64.toInt_toBitVec]
  simp only [decide_eq_true_eq, Bool.or_eq_true, ge_iff_le]
  exact Iff.rfl

theorem sub_eq_zero_iff (a b : Int64) : a.toBitVec - b.toBitVec = 0 ↔ a.toInt = b.toInt := by
  rw [BitVec.sub_eq_iff_eq_add, Int64.toInt_inj, ← Int64.toBitVec_inj]
  simp

/-- Whether a relation holds between two words, of which it is known whether they are equal and
whether the first is less. -/
def Comparison.ofOrder (equal less : Bool) : Comparison → Bool
  | .eq => equal
  | .ne => !equal
  | .lt => less
  | .ge => !less
  | .le => equal || less
  | .gt => !equal && !less

/-- A difference tells all relations between the signed operands. -/
theorem ofOrder_difference (relation : Comparison) (a b : Int64) :
    relation.ofOrder (decide (a.toBitVec - b.toBitVec = 0))
      ((a.toBitVec - b.toBitVec).msb != a.toBitVec.ssubOverflow b.toBitVec) =
        relation.holds a b := by
  have hzero : decide (a.toBitVec - b.toBitVec = 0) = decide (a.toInt = b.toInt) :=
    decide_eq_decide.mpr (sub_eq_zero_iff a b)
  rw [sign_bne_overflow, hzero]
  cases relation with
  | eq | ne =>
    simp only [Comparison.ofOrder, Comparison.holds, Int64.toInt_inj]
    rfl
  | lt => simp only [Comparison.ofOrder, Comparison.holds, Int64.lt_iff_toInt_lt]
  | le =>
    simp only [Comparison.ofOrder, Comparison.holds, Int64.le_iff_toInt_le, ← Bool.decide_or]
    exact decide_eq_decide.mpr (by omega)
  | gt =>
    simp only [Comparison.ofOrder, Comparison.holds, Int64.lt_iff_toInt_lt, ← decide_not,
      ← Bool.decide_and]
    exact decide_eq_decide.mpr (by omega)
  | ge =>
    simp only [Comparison.ofOrder, Comparison.holds, Int64.le_iff_toInt_le, ← decide_not]
    exact decide_eq_decide.mpr (by omega)

/-! ### Divisions -/

theorem ofInt_tdiv (a value : Int64) :
    BitVec.ofInt 64 (a.toInt.tdiv value.toInt) = (a / value).toBitVec := by
  apply BitVec.eq_of_toInt_eq
  rw [Int64.toBitVec_div, BitVec.toInt_sdiv, BitVec.toInt_ofInt]
  rfl

theorem ofInt_tmod (a value : Int64) :
    BitVec.ofInt 64 (a.toInt.tmod value.toInt) = (a % value).toBitVec := by
  rw [Int64.toBitVec_mod, ← BitVec.ofInt_toInt (x := a.toBitVec.srem value.toBitVec),
    BitVec.toInt_srem]
  rfl

/-- The remainder is what the product of quotient and divisor leaves, also where the quotient
wraps. -/
theorem sub_div_mul (a value : Int64) :
    a.toBitVec - (a / value).toBitVec * value.toBitVec = (a % value).toBitVec := by
  have hdivision : a.toInt.tmod value.toInt + a.toInt.tdiv value.toInt * value.toInt = a.toInt :=
    Int.tmod_add_tdiv_mul ..
  have hwords := congrArg (BitVec.ofInt 64) hdivision
  rw [BitVec.ofInt_add, BitVec.ofInt_mul, ofInt_tmod, ofInt_tdiv, BitVec.ofInt_int64ToInt,
    BitVec.ofInt_int64ToInt] at hwords
  exact BitVec.sub_eq_iff_eq_add.mpr hwords.symm

end PluralForms
