import PluralForms.Proofs.CheckedRun
import PluralForms.Proofs.Optimizer

/-! The optimizer keeps programs well formed. A pass removes instructions and aims jumps anew. The
jumps of a valid program stay in it, and where they all go forward, none comes to go backward: a
jump is aimed at a later place than the one where it landed, or at the new index of that place, and
the new indices are in the order of the old ones. -/

namespace PluralForms

namespace Program

open Machine Analysis

variable {p q r : Program} {removed : List Bool} {i j : Nat}

/-- The second program is not longer than the first, it is valid if the first is, and then its jumps
go forward if those of the first do. -/
structure KeepsForm (p q : Program) : Prop where
  length_le : q.length ≤ p.length
  valid : p.invalidJump? = none → q.invalidJump? = none
  forward : p.invalidJump? = none → p.isForward = true → q.isForward = true

namespace KeepsForm

theorem refl (p : Program) : p.KeepsForm p := ⟨le_refl _, id, fun _ => id⟩

theorem trans (hpq : p.KeepsForm q) (hqr : q.KeepsForm r) : p.KeepsForm r where
  length_le := hqr.length_le.trans hpq.length_le
  valid hvalid := hqr.valid (hpq.valid hvalid)
  forward hvalid hforward := hqr.forward (hpq.valid hvalid) (hpq.forward hvalid hforward)

/-- It is enough to know where the jumps of the second program land. -/
theorem of_landings (hlen : q.length ≤ p.length)
    (hlands : p.invalidJump? = none → ∀ (i : Nat) on offset, q[i]? = some (.jump on offset) →
      ∃ place, (Instruction.jump on offset).landing? q.length i = some place ∧
        (p.isForward = true → i < place)) : p.KeepsForm q where
  length_le := hlen
  valid hvalid := by
    refine invalidJump?_eq_none_iff.mpr fun i on offset hget => ?_
    obtain ⟨place, hplace, -⟩ := hlands hvalid i on offset hget
    exact Option.isSome_iff_exists.mpr ⟨place, hplace⟩
  forward hvalid hforward := by
    refine isForward_iff.mpr fun i on offset hget => ?_
    obtain ⟨place, hplace, hlater⟩ := hlands hvalid i on offset hget
    obtain ⟨hindex, -⟩ := Instruction.landing?_jump_eq_some_iff.mp hplace
    have := hlater hforward
    omega

end KeepsForm

theorem lands_of_getElem? {on : Bool} {offset : Int} (hvalid : p.invalidJump? = none)
    (hget : p[i]? = some (.jump on offset)) :
    ∃ target, (Instruction.jump on offset).landing? p.length i = some target ∧
      (p.isForward = true → i < target) := by
  obtain ⟨target, htarget⟩ := exists_landing hvalid hget
  exact ⟨target, htarget, fun hforward => lt_of_landing hforward hget htarget⟩

/-! ### Removal -/

/-- A jump after the removal is one that stays, and it lands at the new index of its landing. -/
theorem landing?_remove {on : Bool} {offset : Int} (hlen : removed.length = p.length)
    (hvalid : p.invalidJump? = none) (hget : (p.remove removed)[j]? = some (.jump on offset)) :
    ∃ i target, place removed (i + 1) = j + 1 ∧ (p.isForward = true → i < target) ∧
      (Instruction.jump on offset).landing? (p.remove removed).length j =
        some (place removed target) := by
  have hj : j < place removed p.length :=
    length_remove hlen ▸ (List.getElem?_eq_some_iff.mp hget).1
  obtain ⟨i, hkept, rfl⟩ := exists_kept hj
  rw [remove_getElem? hlen hkept] at hget
  obtain ⟨instruction, hinst, hmoved⟩ := Option.map_eq_some_iff.mp hget
  cases instruction with
  | jump on' offset' =>
    obtain ⟨target, htarget, hlater⟩ := lands_of_getElem? hvalid hinst
    refine ⟨i, target, place_succ_of_kept hkept, hlater, ?_⟩
    rw [relocate, htarget] at hmoved
    rw [← hmoved, length_remove hlen]
    exact Instruction.landing?_aim on' offset'
      (place_mono removed (Instruction.landing?_le htarget)).1
  | load | arith | loadMod | ret | test =>
    rw [relocate_of_not_jump rfl] at hmoved
    cases hmoved

theorem keepsForm_remove (hlen : removed.length = p.length) : p.KeepsForm (p.remove removed) := by
  refine .of_landings (length_remove hlen ▸ place_le removed _) fun hvalid j on offset hget => ?_
  obtain ⟨i, target, hindex, hlater, hlanding⟩ := landing?_remove hlen hvalid hget
  refine ⟨_, hlanding, fun hforward => ?_⟩
  -- The jump itself stays, so each place behind it has a greater new index.
  have := (place_mono removed (show i + 1 ≤ target from hlater hforward)).1
  omega

theorem keepsForm_removeWhere (gone : Instruction → Nat → Bool) :
    p.KeepsForm (p.removeWhere gone) :=
  keepsForm_remove (length_marks gone)

/-! ### The passes -/

theorem keepsForm_eliminatePrefixes (p : Program) : p.KeepsForm p.eliminatePrefixes.1 := by
  simp only [eliminatePrefixes]
  exact keepsForm_removeWhere _

theorem keepsForm_eliminateLoads (p : Program) : p.KeepsForm p.eliminateLoads.1 := by
  simp only [eliminateLoads]
  exact keepsForm_removeWhere _

theorem keepsForm_removeLeadingLoad (p : Program) : p.KeepsForm p.removeLeadingLoad.1 := by
  simp only [removeLeadingLoad]
  split
  · split
    · rw [Prod.fst]
      exact keepsForm_removeWhere _
    · exact .refl _
  · exact .refl _

theorem keepsForm_eliminateDead (p : Program) : p.KeepsForm p.eliminateDead.1 := by
  simp only [eliminateDead]
  exact keepsForm_removeWhere _

/-- No jump arises where a load and the remainder after it become one instruction. -/
theorem keepsForm_fuseMods (p : Program) : p.KeepsForm p.fuseMods.1 := by
  simp only [fuseMods]
  refine .trans (.of_landings (List.length_mapIdx ..).le fun hvalid i on offset hget => ?_)
    (keepsForm_removeWhere _)
  rw [List.length_mapIdx]
  rw [List.getElem?_mapIdx] at hget
  obtain ⟨instruction, hinst, hjump⟩ := Option.map_eq_some_iff.mp hget
  cases hfused : fusible? p.toArray (Analysis.of p) i with
  | none =>
    rw [hfused, Option.map_none, Option.getD_none] at hjump
    exact lands_of_getElem? hvalid (hjump ▸ hinst)
  | some operand => simp [hfused] at hjump

/-- A chain of jumps ends in the program, and none of its jumps leads back if they go forward. -/
theorem keepsForm_shortcut {index place : Nat} (h : shortcut? p.toArray index = some place) :
    p.KeepsForm (p.modify index (Instruction.aim index place)) := by
  obtain ⟨on, offset, first, hinst, hfirst, hsettle⟩ := shortcut?_eq_some h
  have hlen : (p.modify index (Instruction.aim index place)).length = p.length :=
    List.length_modify ..
  refine .of_landings hlen.le fun hvalid i on' offset' hget => ?_
  rw [hlen]
  rw [List.getElem?_modify] at hget
  -- Only the jump that is aimed anew has another landing; its old one is the first of the chain.
  by_cases hindex : index = i
  · subst hindex
    rw [hinst] at hget
    obtain ⟨hplace, hsteps⟩ :=
      steps_settle (n := 0) (r := 0) hsettle (Instruction.landing?_le hfirst)
    have haim : (Instruction.jump on offset).aim index place = .jump on' offset' := by
      simpa using hget
    refine ⟨place, haim ▸ Instruction.landing?_aim on offset hplace, fun hforward => ?_⟩
    have hlater := lt_of_landing hforward hinst hfirst
    exact hlater.trans_le (index_le_of_steps hforward hvalid hsteps)
  · exact lands_of_getElem? hvalid (by simpa [hindex] using hget)

theorem keepsForm_collapseJumps (p : Program) : p.KeepsForm p.collapseJumps.1 :=
  collapseJumps_related .refl .trans keepsForm_shortcut p

/-- The loads past which a jump is aimed lie in the program, behind the place where it landed. -/
theorem keepsForm_elideLoads (p : Program) : p.KeepsForm p.elideLoads.1 := by
  refine .of_landings (List.length_mapIdx ..).le fun hvalid i on offset hget => ?_
  simp only [elideLoads, List.length_mapIdx]
  simp only [elideLoads, List.getElem?_mapIdx] at hget
  obtain ⟨instruction, hinst, hjump⟩ := Option.map_eq_some_iff.mp hget
  cases hpast : pastLoads? p p.length (Analysis.of p) instruction i with
  | none =>
    obtain rfl : instruction = .jump on offset := by simpa [hpast] using hjump
    exact lands_of_getElem? hvalid hinst
  | some place =>
    obtain ⟨on', offset', target, state, length, rfl, htarget, -, hlength, rfl⟩ :=
      pastLoads?_eq_some hpast
    have hle := RegisterState.redundantLength?_le hlength
    have hrun := (List.takeWhile_prefix (l := p.drop target) (·.altersRegister)).length_le
    rw [List.length_drop] at hrun
    have hend := Instruction.landing?_le htarget
    have haim : (Instruction.jump on' offset').aim i (target + length) = .jump on offset := by
      simpa [hpast] using hjump
    refine ⟨target + length, ?_, fun hforward => ?_⟩
    · rw [← haim]
      exact Instruction.landing?_aim on' offset' (by omega)
    · exact (lt_of_landing hforward hinst htarget).trans_le (Nat.le_add_right target length)

end Program

namespace Optimizer

open Program

theorem keepsForm_keptByPasses : KeptByPasses Program.KeepsForm where
  refl := .refl
  trans := .trans
  eliminatePrefixes := keepsForm_eliminatePrefixes
  eliminateLoads := keepsForm_eliminateLoads
  fuseMods := keepsForm_fuseMods
  collapseJumps := keepsForm_collapseJumps
  elideLoads := keepsForm_elideLoads
  removeLeadingLoad := keepsForm_removeLeadingLoad
  eliminateDead := keepsForm_eliminateDead

theorem keepsForm_optimize (limit : Nat) (p : Program) :
    p.KeepsForm (optimize limit p).program :=
  keepsForm_keptByPasses.optimize limit p

/-- The optimizer keeps a valid program valid, does not make it longer and counts the instructions
by which it is shorter, and aims no jump backward if none was. A program with a jump that leaves it
is not touched. -/
theorem optimize_wellFormed (limit : Nat) (p : Program) :
    (p.isValid = true →
      (optimize limit p).program.isValid = true ∧
      (optimize limit p).program.length ≤ p.length ∧
      (p.isForward = true → (optimize limit p).program.isForward = true) ∧
      (optimize limit p).stats.removed = p.length - (optimize limit p).program.length) ∧
    (p.isValid = false → (optimize limit p).program = p ∧ (optimize limit p).stats = {}) := by
  have hkeeps := keepsForm_optimize limit p
  refine ⟨fun hvalid => ?_, fun hinvalid => ?_⟩
  · have hnone : p.invalidJump? = none := Option.isNone_iff_eq_none.mp hvalid
    refine ⟨Option.isNone_iff_eq_none.mpr (hkeeps.valid hnone), hkeeps.length_le,
      hkeeps.forward hnone, ?_⟩
    simp only [optimize, hnone]
  · obtain ⟨jump, hjump⟩ : ∃ jump, p.invalidJump? = some jump := by
      cases hp : p.invalidJump? with
      | none => simp [isValid, hp] at hinvalid
      | some jump => exact ⟨jump, rfl⟩
    simp only [optimize, hjump, and_self]

theorem optimize_wellFormed_remainder :
    (optimize 8 [.load 0, .arith .mod 10, .test .eq 1, .jump false 2, .load 0, .arith .mod 10,
        .ret 7]).program.isForward = true ∧
      (optimize 8 [.load 0, .arith .mod 10, .test .eq 1, .jump false 2, .load 0, .arith .mod 10,
        .ret 7]).stats.removed = 4 ∧
      (optimize 8 [.ret 1, .jump true 1]).program = [.ret 1, .jump true 1] := by
  obtain ⟨-, -, hforward, hremoved⟩ := (optimize_wellFormed 8 [.load 0, .arith .mod 10,
    .test .eq 1, .jump false 2, .load 0, .arith .mod 10, .ret 7]).1 (by decide)
  obtain ⟨huntouched, -⟩ := (optimize_wellFormed 8 [.ret 1, .jump true 1]).2 (by decide)
  exact ⟨hforward (by decide), hremoved.trans (by decide +kernel), huntouched⟩

end Optimizer

end PluralForms
