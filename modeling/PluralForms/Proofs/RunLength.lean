import PluralForms.Proofs.Faults
import PluralForms.Proofs.Validity

/-! The optimizer makes no run longer. Each instruction of the optimized program stands for one or
more that the program before executed, on every path and in every turn of a loop, so a budget that
was enough for a checked run still is. -/

namespace PluralForms

namespace Machine

variable {program : Program} {n v : Int64} {s s' : State} {limit left j k : Nat}

/-! ### Checked runs and the number of instructions -/

theorem runFrom_of_executes (hvalid : program.invalidJump? = none)
    (h : Executes program n v k s) (hk : k ≤ left) :
    runFrom program n limit left s = .ok v := by
  induction h generalizing left with
  | atEnd hend hv => exact hv ▸ runFrom_end hend
  | ret hret => exact runFrom_of_halts (.inr ⟨hret, rfl⟩) hk
  | next hstep _ ih =>
    obtain ⟨left, rfl⟩ := Nat.exists_eq_succ_of_ne_zero (Nat.ne_zero_of_lt hk)
    rw [runFrom_succ (not_leaves_of_valid hvalid _), hstep]
    exact ih (Nat.le_of_succ_le_succ hk)

theorem executes_of_halts (h : Halts program s v j) : Executes program n v j s := by
  rcases h with ⟨hend, rfl, rfl⟩ | ⟨hret, rfl⟩
  · exact .atEnd hend rfl
  · exact .ret hret

theorem Inside.executes (h : Inside program n k s s') (hrest : Executes program n v j s') :
    Executes program n v (k + j) s := by
  induction h with
  | refl s => rwa [Nat.zero_add]
  | next hstep _ _ ih =>
    rw [Nat.add_right_comm]
    exact .next hstep (ih hrest)

theorem executes_of_run (h : run program limit n = .ok v) :
    ∃ k ≤ limit, Executes program n v k (.start n) := by
  have htells := tells_runFrom program n limit limit (.start n)
  rw [← run, h] at htells
  obtain ⟨k, j, s, hinside, hhalts, hle⟩ := htells
  exact ⟨k + j, hle, hinside.executes (executes_of_halts hhalts)⟩

/-- The checked run of a valid program has a result if and only if the budget is enough for the
instructions that it executes. -/
theorem run_eq_ok_iff (hvalid : program.invalidJump? = none) :
    run program limit n = .ok v ↔ ∃ k ≤ limit, Executes program n v k (.start n) :=
  ⟨executes_of_run, fun ⟨_, hk, h⟩ => runFrom_of_executes hvalid h hk⟩

theorem exec_eq_some_iff_executes :
    exec program n = some v ↔ ∃ k, Executes program n v k (.start n) := by
  rw [exec_eq_some_iff, exists_executes_iff]

end Machine

namespace Optimizer

open Machine

/-- If a run ends after `k` instructions, that of the optimized program ends with the same value
after at most `k`, and a budget with which the checked run has a result gives the same result for
the optimized program. -/
theorem optimize_runs_no_longer (limit : Nat) (p : Program) (n v : Int64) :
    (exec p n = some v ↔ ∃ k, Executes p n v k (.start n)) ∧
      (∀ k, Executes p n v k (.start n) →
        ∃ j ≤ k, Executes (optimize limit p).program n v j (.start n)) ∧
      ∀ budget, run p budget n = .ok v → run (optimize limit p).program budget n = .ok v := by
  have himproved := improvedBy_optimize limit p
  refine ⟨exec_eq_some_iff_executes, himproved.executes n v, fun budget hrun => ?_⟩
  cases hvalid : p.invalidJump? with
  | some jump => simpa only [optimize, hvalid] using hrun
  | none =>
    obtain ⟨k, hk, hexecutes⟩ := executes_of_run hrun
    obtain ⟨j, hj, hexecutes'⟩ := himproved.executes n v k hexecutes
    exact (run_eq_ok_iff ((keepsForm_optimize limit p).valid hvalid)).mpr
      ⟨j, hj.trans hk, hexecutes'⟩

theorem optimize_runs_no_longer_loop :
    (∃ j ≤ 18, Executes (optimize 8 [.test .gt 5, .jump false 3, .arith .sub 1, .jump true 0,
        .jump true (-5), .ret 3]).program 8 3 j (.start 8)) ∧
      run (optimize 8 [.test .gt 5, .jump false 3, .arith .sub 1, .jump true 0,
        .jump true (-5), .ret 3]).program 18 8 = .ok 3 := by
  have hrun : run [.test .gt 5, .jump false 3, .arith .sub 1, .jump true 0, .jump true (-5),
      .ret 3] 18 8 = .ok 3 := rfl
  obtain ⟨-, hexecutes, hbudget⟩ := optimize_runs_no_longer 8 [.test .gt 5, .jump false 3,
    .arith .sub 1, .jump true 0, .jump true (-5), .ret 3] 8 3
  obtain ⟨k, hk, h⟩ := executes_of_run hrun
  obtain ⟨j, hj, hoptimized⟩ := hexecutes k h
  exact ⟨⟨j, hj.trans hk, hoptimized⟩, hbudget 18 hrun⟩

end Optimizer

end PluralForms
