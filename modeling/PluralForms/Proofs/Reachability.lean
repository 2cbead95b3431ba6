import PluralForms.Proofs.Analysis
import PluralForms.Proofs.Optimizer

/-! Paths after a removal, and the end of dead code. A removal carries the paths of a program over
to its new places if control can only pass over what is removed. Where the unreachable instructions
and the idle jumps go at the same time, a path that came by idle jumps is shorter by them. -/

namespace PluralForms

open Relation

namespace Program

variable {p : Program} {removed : List Bool} {i j t : Nat} {instruction : Instruction}

/-! ### Edges -/

/-- A jump that stays and lands in the program lands at the new index of its landing. -/
theorem landing?_remove_of_kept (hlen : removed.length = p.length)
    (hkept : removed[i]? = some false) (hlands : p.landing? i = some t) :
    (p.remove removed).landing? (place removed i) = some (place removed t) := by
  obtain ⟨on, offset, hget, hlands⟩ := landing?_eq_some_iff.mp hlands
  have hplace := (place_mono removed (Instruction.landing?_le hlands)).1
  rw [landing?, remove_getElem? hlen hkept, hget, Option.map_some, Option.bind_some, relocate,
    hlands, length_remove hlen]
  exact Instruction.landing?_aim on offset hplace

/-- A jump of the program after the removal is one that stays, and it lands at the new index of its
landing. -/
theorem exists_landing_of_remove (hlen : removed.length = p.length)
    (hvalid : p.invalidJump? = none) (hlands : (p.remove removed).landing? j = some t) :
    ∃ i t', removed[i]? = some false ∧ place removed i = j ∧ p.landing? i = some t' ∧
      place removed t' = t := by
  obtain ⟨on, offset, hget, -⟩ := landing?_eq_some_iff.mp hlands
  obtain ⟨i, hkept, rfl⟩ := exists_kept (length_remove hlen ▸ (List.getElem?_eq_some_iff.mp hget).1)
  rw [remove_getElem? hlen hkept] at hget
  obtain ⟨instruction, hinst, hmoved⟩ := Option.map_eq_some_iff.mp hget
  cases instruction with
  | jump on' offset' =>
    obtain ⟨t', ht'⟩ := exists_landing hvalid hinst
    have hlands' := landing?_eq_some_iff.mpr ⟨on', offset', hinst, ht'⟩
    exact ⟨i, t', hkept, rfl, hlands', Option.some.inj
      ((landing?_remove_of_kept hlen hkept hlands').symm.trans hlands)⟩
  | load | arith | loadMod | ret | test =>
    rw [relocate_of_not_jump rfl] at hmoved
    cases hmoved

theorem relocate_ne_ret {size index : Nat} (h : ∀ value, instruction ≠ .ret value) (value : Int64) :
    relocate removed size index instruction ≠ .ret value := by
  cases instruction with
  | jump on offset =>
    rw [relocate]
    split <;> rintro ⟨⟩
  | ret | load | arith | loadMod | test =>
    rw [relocate_of_not_jump rfl]
    exact h value

/-- Control passes on from an instruction that stays as it did before. -/
theorem Edge.remove (hlen : removed.length = p.length) (hkept : removed[i]? = some false)
    (hedge : p.Edge i t) : (p.remove removed).Edge (place removed i) (place removed t) := by
  cases hedge with
  | behind hget hret =>
    rw [place_succ_of_kept hkept]
    refine .behind (?_ : _ = some (relocate removed p.length i _)) (relocate_ne_ret hret)
    rw [remove_getElem? hlen hkept, hget, Option.map_some]
  | landing hlands => exact .landing (landing?_remove_of_kept hlen hkept hlands)

/-- If control can only pass over what is removed, the paths lead to the new places. -/
theorem Reachable.remove (hlen : removed.length = p.length)
    (hpass : ∀ i t, removed[i]? = some true → p.Reachable i → p.Edge i t →
      place removed t = place removed i)
    (h : p.Reachable i) : (p.remove removed).Reachable (place removed i) := by
  induction h with
  | refl =>
    rw [place_zero]
    exact .refl
  | @tail i t hpath hedge ih =>
    obtain ⟨instruction, hget⟩ := hedge.getElem?
    have hlt : i < removed.length := hlen ▸ (List.getElem?_eq_some_iff.mp hget).1
    cases hmark : removed[i] with
    | false => exact .tail ih (hedge.remove hlen (List.getElem?_eq_some_iff.mpr ⟨hlt, hmark⟩))
    | true =>
      rw [hpass i t (List.getElem?_eq_some_iff.mpr ⟨hlt, hmark⟩) hpath hedge]
      exact ih

/-! ### Dead code -/

/-- The instructions that stay are those that a path reaches, apart from the idle jumps. -/
theorem eliminateDead_marks (p : Program) :
    ∃ removed, removed.length = p.length ∧ p.eliminateDead.1 = p.remove removed ∧
      (∀ i, removed[i]? = some false → p.Reachable i) ∧
      ∀ i, removed[i]? = some true → p.Reachable i → p.landing? i = some (i + 1) := by
  simp only [eliminateDead, removeWhere_eq]
  refine ⟨_, length_marks _, rfl, fun i hkept => ?_, fun i hgone hreachable => ?_⟩
  · rw [marks_getElem?] at hkept
    obtain ⟨instruction, hget, hmark⟩ := Option.map_eq_some_iff.mp hkept
    simp only [Bool.or_eq_false_iff, Bool.not_eq_false'] at hmark
    exact (Analysis.isReachable_iff.mp hmark.1).2
  · rw [marks_getElem?] at hgone
    obtain ⟨instruction, hget, hmark⟩ := Option.map_eq_some_iff.mp hgone
    have hlt := (List.getElem?_eq_some_iff.mp hget).1
    have hisReachable := Analysis.isReachable_iff.mpr ⟨hlt, hreachable⟩
    simp only [hisReachable, Bool.not_true, Bool.false_or, Bool.true_and,
      decide_eq_true_eq] at hmark
    rw [landing?, hget, Option.bind_some, hmark]

theorem reachable_eliminateDead (h : j < p.eliminateDead.1.length) :
    p.eliminateDead.1.Reachable j := by
  obtain ⟨removed, hlen, heq, hkept, hidle⟩ := p.eliminateDead_marks
  rw [heq] at h ⊢
  rw [length_remove hlen] at h
  obtain ⟨i, hi, rfl⟩ := exists_kept h
  refine (hkept i hi).remove hlen fun i t hgone hreachable hedge => ?_
  have hlands := hidle i hgone hreachable
  -- An idle jump leads behind itself, whether it is taken or not.
  obtain rfl : t = i + 1 := by
    cases hedge with
    | behind => rfl
    | landing hlands' => exact Option.some.inj (hlands'.symm.trans hlands)
  exact place_succ_of_gone hgone

end Program

namespace Optimizer

/-- A round ends with the removal of dead code. -/
theorem exists_eliminateDead_round (p : Program) (stats : Stats) :
    ∃ q : Program, (round p stats).1 = q.eliminateDead.1 := by
  simp only [round]
  exact ⟨_, rfl⟩

theorem exists_eliminateDead_rounds (limit : Nat) (p : Program) (stats : Stats) :
    ∃ q : Program, (rounds (limit + 1) p stats).program = q.eliminateDead.1 := by
  induction limit generalizing p stats with
  | zero =>
    have hround := exists_eliminateDead_round p stats
    generalize hr : round p stats = after at hround
    simp only [rounds, hr]
    split <;> exact hround
  | succ limit ih =>
    have hround := exists_eliminateDead_round p stats
    generalize hr : round p stats = after at hround
    rw [rounds, hr]
    simp only
    split
    · exact hround
    · dsimp only
      exact ih after.1 after.2

/-- A path of the optimized program leads to each of its instructions, if the program was valid and
one round at least was run. -/
theorem optimize_reachable (limit : Nat) (p : Program) (hvalid : p.isValid = true)
    (hlimit : 1 ≤ limit) :
    ∀ i < (optimize limit p).program.length, (optimize limit p).program.Reachable i := by
  intro i hi
  obtain ⟨limit, rfl⟩ := Nat.exists_eq_add_of_le' hlimit
  have hnone : p.invalidJump? = none := Option.isNone_iff_eq_none.mp hvalid
  obtain ⟨q, hq⟩ := exists_eliminateDead_rounds limit p {}
  have hprogram : (optimize (limit + 1) p).program = q.eliminateDead.1 := by
    simp only [optimize, hnone]
    exact hq
  rw [hprogram] at hi ⊢
  exact Program.reachable_eliminateDead hi

theorem optimize_reachable_idle :
    (optimize 1 [.test .eq 1, .jump true 1, .jump false 0, .test .gt 5, .jump false (-4), .ret 1,
        .load 0, .ret 2]).program =
      [.test .eq 1, .jump true 0, .test .gt 5, .jump false (-2), .ret 1] ∧
    Program.Reachable (optimize 1 [.test .eq 1, .jump true 1, .jump false 0, .test .gt 5,
        .jump false (-4), .ret 1, .load 0, .ret 2]).program 4 :=
  ⟨by decide +kernel, optimize_reachable 1 [.test .eq 1, .jump true 1, .jump false 0, .test .gt 5,
    .jump false (-4), .ret 1, .load 0, .ret 2] (by decide) le_rfl 4 (by decide +kernel)⟩

end Optimizer

end PluralForms
