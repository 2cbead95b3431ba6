import PluralForms.Proofs.Removal

/-! What a removal leaves of a program: the instructions that are not marked, in order, with jumps
that go where they went before. A jump into removed instructions goes to the next one that stays,
and a jump that leaves the program leaves it on the same side. -/

namespace PluralForms

/-! ### What a removal has to do -/

/-- The instructions that are not marked, in order. -/
def Program.kept (program : Program) (removed : List Bool) : Program :=
  (program.zip removed).filterMap fun (instruction, gone) =>
    if gone then none else some instruction

/-- Where a jump has to go that went to `target` in a program of `size` instructions. Either target
is an index, or lies before or behind its program. -/
structure Retargets (removed : List Bool) (size newSize : Nat) (target newTarget : Int) : Prop where
  /-- The new index is that of the first instruction from the target on that stays. -/
  lands : ∀ {t first : Nat}, target = t → t ≤ first → removed[first]? = some false →
    (∀ k, t ≤ k → k < first → removed[k]? = some true) → newTarget = Program.place removed first
  /-- Where none of the instructions from the target on stays, the jump goes to the end. -/
  ends : ∀ {t : Nat}, target = t → t ≤ size → (∀ k, t ≤ k → removed[k]? ≠ some false) →
    newTarget = newSize
  stays : 0 ≤ target → target ≤ size → 0 ≤ newTarget ∧ newTarget ≤ newSize
  before : target < 0 → newTarget < 0
  behind : size < target → newSize < newTarget

/-- The program `new` is what the removal has to leave of `program`. -/
structure Relocates (program : Program) (removed : List Bool) (new : Program) : Prop where
  /-- Nothing but the offsets of jumps changes in the instructions that are not marked. -/
  kept : new.map (Instruction.withOffset 0) =
    (program.kept removed).map (Instruction.withOffset 0)
  jump : ∀ {i on offset}, removed[i]? = some false → program[i]? = some (.jump on offset) →
    ∃ newOffset, new[Program.place removed i]? = some (.jump on newOffset) ∧
      Retargets removed program.length new.length (i + 1 + offset)
        (Program.place removed i + 1 + newOffset)

namespace Program

variable {program : Program} {removed : List Bool} {size i t : Nat} {offset : Int}

/-! ### The instructions that stay -/

theorem withOffset_relocated (places : Array Nat) (size index : Nat) (instruction : Instruction) :
    (relocated places size index instruction).withOffset 0 = instruction.withOffset 0 := by
  rw [relocated]
  split
  · cases instruction <;> rfl
  · rfl

theorem map_withOffset_remove (program : Program) (removed : List Bool) :
    (program.remove removed).map (Instruction.withOffset 0) =
      (program.kept removed).map (Instruction.withOffset 0) := by
  have hzip : program.zip removed = (program.zipIdx.zip removed).map (Prod.map Prod.fst id) := by
    rw [← List.zip_map_left, List.zipIdx_map_fst]
  rw [remove, kept, hzip, List.filterMap_map, List.map_filterMap, List.map_filterMap]
  refine List.filterMap_congr fun x _ => ?_
  obtain ⟨⟨instruction, index⟩, gone⟩ := x
  cases gone <;> simp [withOffset_relocated]

/-! ### Targets -/

/-- A jump into the program or to its end goes to the new index of its target. -/
theorem retargets_place (hlen : removed.length = size) (ht : t ≤ size) :
    Retargets removed size (place removed size) t (place removed t) where
  lands {t' first} heq hle _ hgone := by
    obtain rfl : t = t' := by omega
    rw [place_eq_of_gone hle hgone]
  ends {t'} heq _ hnone := by
    obtain rfl : t = t' := by omega
    have hgone : ∀ k, t ≤ k → k < size → removed[k]? = some true := by
      intro k hle hlt
      have hne := hnone k hle
      rw [List.getElem?_eq_getElem (hlen ▸ hlt)] at hne ⊢
      simpa using hne
    rw [place_eq_of_gone ht hgone]
  stays _ _ := by
    have := (place_mono removed ht).1
    omega
  before h := by omega
  behind h := by omega

/-- A jump that leaves the program and keeps its offset leaves the new one on the same side. -/
theorem retargets_escaping (hlen : removed.length = size) (hi : i ≤ size)
    (h : i + 1 + offset < 0 ∨ size < i + 1 + offset) :
    Retargets removed size (place removed size) (i + 1 + offset)
      (place removed i + 1 + offset) where
  lands {t first} heq hle hkept _ := by
    have := (List.getElem?_eq_some_iff.mp hkept).1
    omega
  ends heq hle _ := by omega
  stays hlow hhigh := by omega
  before h := by
    have := place_le removed i
    omega
  behind h := by
    have := (place_mono removed hi).2
    omega

/-- A removal leaves the instructions that are not marked, and no jump goes astray. -/
theorem relocates_remove (hlen : removed.length = program.length) :
    Relocates program removed (program.remove removed) where
  kept := map_withOffset_remove program removed
  jump {i on offset} hkept hget := by
    have hi : i < program.length := (List.getElem?_eq_some_iff.mp hget).1
    rw [remove_getElem? hlen hkept, hget, Option.map_some, length_remove hlen, relocate]
    cases hlands : (Instruction.jump on offset).landing? program.length i with
    | some t =>
      obtain ⟨htarget, ht⟩ := Instruction.landing?_jump_eq_some_iff.mp hlands
      refine ⟨place removed t - (place removed i + 1), rfl, ?_⟩
      rw [htarget, add_sub_cancel]
      exact retargets_place hlen ht
    | none =>
      have hescapes := Instruction.landing?_jump_eq_none_iff.mp hlands
      exact ⟨offset, rfl, retargets_escaping hlen hi.le hescapes⟩

/-- A program with jumps in both directions into removed instructions, a jump to the end, and jumps
that leave the program on either side. -/
theorem relocates_remove_escaping :
    let program : Program := [.jump true 2, .loadMod 10, .jump false (-5), .test .eq 0,
      .jump true (-4), .jump false 5, .jump true 0]
    let removed := [false, true, false, true, false, false, false]
    removed.length = program.length ∧
      program.remove removed =
        [.jump true 1, .jump false (-5), .jump true (-2), .jump false 5, .jump true 0] ∧
      Relocates program removed (program.remove removed) := by
  intro program removed
  exact ⟨rfl, by decide, relocates_remove rfl⟩

end Program

end PluralForms
