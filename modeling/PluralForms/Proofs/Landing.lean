import PluralForms.Proofs.Machine

/-! Where jumps land: the instructions with a landing, the places that are targets, the programs
without an invalid jump, and jumps that are aimed anew. -/

namespace PluralForms

namespace Instruction

variable {instruction : Instruction} {size index target : Nat}

theorem landing?_eq_some_iff :
    instruction.landing? size index = some target ↔
      ∃ on offset, instruction = .jump on offset ∧ (index : Int) + 1 + offset = target ∧
        target ≤ size := by
  cases instruction with
  | jump on offset =>
    simp only [landing?, target?, Option.ite_none_right_eq_some, Option.some.injEq, jump.injEq]
    constructor
    · rintro ⟨⟨hlow, hhigh⟩, rfl⟩
      exact ⟨on, offset, ⟨rfl, rfl⟩, by omega, by omega⟩
    · rintro ⟨_, _, ⟨rfl, rfl⟩, ht, hle⟩
      omega
  | _ => simp [landing?, target?]

theorem landing?_jump_eq_some_iff {on : Bool} {offset : Int} :
    (Instruction.jump on offset).landing? size index = some target ↔
      (index : Int) + 1 + offset = target ∧ target ≤ size := by
  rw [landing?_eq_some_iff]
  constructor
  · rintro ⟨_, _, heq, h⟩
    obtain ⟨-, rfl⟩ := jump.inj heq
    exact h
  · exact fun h => ⟨on, offset, rfl, h⟩

/-- A jump without a landing leaves the program on one side. -/
theorem landing?_jump_eq_none_iff {on : Bool} {offset : Int} :
    (Instruction.jump on offset).landing? size index = none ↔
      (index : Int) + 1 + offset < 0 ∨ (size : Int) < index + 1 + offset := by
  simp only [landing?, target?, ite_eq_right_iff, reduceCtorEq, imp_false]
  omega

theorem landing?_le (h : instruction.landing? size index = some target) : target ≤ size := by
  obtain ⟨_, _, -, -, hle⟩ := landing?_eq_some_iff.mp h
  exact hle

/-- A jump without a landing goes to the end of the program. -/
theorem jumpIndex_eq (on : Bool) (offset : Int) :
    Machine.jumpIndex size index offset =
      ((Instruction.jump on offset).landing? size index).getD size := by
  simp only [Machine.jumpIndex, landing?, target?]
  split <;> rfl

theorem jumpIndex_of_landing {on : Bool} {offset : Int}
    (h : (Instruction.jump on offset).landing? size index = some target) :
    Machine.jumpIndex size index offset = target := by
  rw [jumpIndex_eq on, h, Option.getD_some]

/-- A jump that is aimed at a place of the program lands there. -/
theorem landing?_aim (on : Bool) (offset : Int) (h : target ≤ size) :
    ((Instruction.jump on offset).aim index target).landing? size index = some target :=
  landing?_jump_eq_some_iff.mpr ⟨by omega, h⟩

end Instruction

namespace Program

variable {program : Program} {index target : Nat}

theorem mem_landings : target ∈ program.landings ↔ ∃ i, program.landing? i = some target := by
  simp only [landings, landing?, List.mem_filterMap, Prod.exists, List.mk_mem_zipIdx_iff_getElem?,
    Option.bind_eq_some_iff]
  exact exists_comm

theorem isTarget_iff : program.isTarget target = true ↔ ∃ i, program.landing? i = some target := by
  rw [isTarget, List.contains_iff_mem, mem_landings]

theorem size_foldl_marks (places : List Nat) (marks : Array Bool) :
    (places.foldl (fun marks index => marks.setIfInBounds index true) marks).size =
      marks.size := by
  induction places generalizing marks with
  | nil => rfl
  | cons place places ih => simp [ih]

theorem getD_foldl_marks {places : List Nat} {marks : Array Bool} (h : index < marks.size) :
    (places.foldl (fun marks index => marks.setIfInBounds index true) marks).getD index false =
      (marks.getD index false || places.contains index) := by
  induction places generalizing marks with
  | nil => simp
  | cons place places ih =>
    rw [List.foldl_cons, ih (by simpa using h), List.contains_cons]
    by_cases hp : place = index
    · subst hp
      simp [Array.getD_eq_getD_getElem?, h]
    · simp [Array.getD_eq_getD_getElem?, hp, beq_false_of_ne (Ne.symm hp)]

/-- The marks of a program tell which places are targets. -/
theorem getD_targets (program : Program) (index : Nat) :
    program.targets.getD index false = program.isTarget index := by
  by_cases h : index < program.length + 1
  · rw [targets, getD_foldl_marks (by simpa using h), isTarget]
    simp [Array.getD_eq_getD_getElem?, h]
  · have hsize : program.targets.size = program.length + 1 := by
      simp [targets, size_foldl_marks]
    have hno : program.isTarget index ≠ true := by
      rw [Ne, isTarget_iff]
      rintro ⟨i, hi⟩
      obtain ⟨_, -, hl⟩ := Option.bind_eq_some_iff.mp hi
      have := Instruction.landing?_le hl
      omega
    simp [Array.getD_eq_getD_getElem?, hsize, h, hno]

/-- Without an invalid jump, each jump lands in the program or at its end. -/
theorem invalidJump?_eq_none_iff :
    program.invalidJump? = none ↔
      ∀ i on offset, program[i]? = some (.jump on offset) →
        ((Instruction.jump on offset).landing? program.length i).isSome := by
  simp only [invalidJump?, List.findSome?_eq_none_iff, Prod.forall,
    List.mk_mem_zipIdx_iff_getElem?]
  constructor
  · intro h i on offset hi
    have hnone := h (.jump on offset) i hi
    cases hl : (Instruction.jump on offset).landing? program.length i <;> simp_all
  · intro h instruction i hi
    cases instruction with
    | jump on offset =>
      obtain ⟨t, ht⟩ := Option.isSome_iff_exists.mp (h i on offset hi)
      simp [ht]
    | _ => rfl

theorem isForward_iff :
    program.isForward = true ↔
      ∀ (i : Nat) on offset, program[i]? = some (.jump on offset) → 0 ≤ offset := by
  simp only [isForward, List.all_eq_true]
  constructor
  · intro h i on offset hi
    simpa using h _ (List.mem_of_getElem? hi)
  · intro h instruction hmem
    obtain ⟨i, hi⟩ := List.mem_iff_getElem?.mp hmem
    cases instruction with
    | jump on offset => simpa using h i on offset hi
    | _ => rfl

theorem lt_of_landing {on : Bool} {offset : Int} {size : Nat} (hforward : program.isForward = true)
    (hget : program[index]? = some (.jump on offset))
    (hlands : (Instruction.jump on offset).landing? size index = some target) : index < target := by
  have hpositive := isForward_iff.mp hforward index on offset hget
  obtain ⟨hplace, -⟩ := Instruction.landing?_jump_eq_some_iff.mp hlands
  omega

theorem exists_landing {on : Bool} {offset : Int} (hvalid : program.invalidJump? = none)
    (hget : program[index]? = some (.jump on offset)) :
    ∃ target, (Instruction.jump on offset).landing? program.length index = some target :=
  Option.isSome_iff_exists.mp (invalidJump?_eq_none_iff.mp hvalid index on offset hget)

end Program

end PluralForms
