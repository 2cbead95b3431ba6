import PluralForms.Proofs.CheckedRun

/-! The outcome of a checked run, told by the unchecked machine. A run is followed instruction by
instruction as long as it stays in the program. It ends there, or comes to a jump that leaves the
program, or has another instruction before it when its limit is used up; and the checked run has a
result, stops at the jump, or stops at its limit accordingly. -/

namespace PluralForms.Machine

open Relation

variable {program : Program} {n v : Int64} {s s' : State} {jump : InvalidJump}
  {limit left j k l : Nat}

/-- The run goes from `s` to `s'` by `k` instructions, and none of them leaves the program. -/
inductive Inside (program : Program) (n : Int64) : Nat → State → State → Prop
  | refl (s : State) : Inside program n 0 s s
  | next {k : Nat} {s s' s'' : State} : step program n s = .next s' →
      (∀ jump, ¬Leaves program s jump) → Inside program n k s' s'' →
      Inside program n (k + 1) s s''

/-- At `s` the run ends with `v`, by `j` more instructions: a return is an instruction, and the end
of the program is none. -/
def Halts (program : Program) (s : State) (v : Int64) (j : Nat) : Prop :=
  (program.length ≤ s.index ∧ v = wordOfBool s.status ∧ j = 0) ∨
    (program[s.index]? = some (.ret v) ∧ j = 1)

/-! ### The unchecked machine -/

theorem Inside.steps (h : Inside program n k s s') :
    ReflTransGen (system program n).Next s s' := by
  induction h with
  | refl s => exact .refl
  | next hstep _ _ ih => exact .head (next_iff.mpr hstep) ih

theorem ends_of_halts (h : Halts program s v j) : (system program n).Ends s v := by
  rcases h with ⟨hend, rfl, -⟩ | ⟨hret, -⟩
  · exact ends_of_done (step_end hend)
  · exact ends_of_done (step_ret hret)

/-- A jump that leaves the program goes to its end. -/
theorem step_of_leaves (h : Leaves program s jump) :
    step program n s = .next { s with index := program.length } := by
  obtain ⟨hindex, hget, houtside⟩ := h
  rw [hindex] at hget houtside
  simp [step, hget, jumpIndex, houtside]

theorem ends_of_leaves (h : Leaves program s jump) :
    (system program n).Ends s (wordOfBool s.status) := by
  have hend : (system program n).Ends { s with index := program.length } (wordOfBool s.status) :=
    ends_of_done (step_end (Nat.le_refl _))
  exact .before_steps (.single (next_iff.mpr (step_of_leaves h))) hend

/-! ### The checked run -/

theorem runFrom_of_halts (h : Halts program s v j) (hj : j ≤ left) :
    runFrom program n limit left s = .ok v := by
  rcases h with ⟨hend, rfl, -⟩ | ⟨hret, rfl⟩
  · exact runFrom_end hend
  · obtain ⟨left, rfl⟩ := Nat.exists_eq_succ_of_ne_zero (Nat.ne_of_gt hj)
    simp only [runFrom, hret]

theorem runFrom_of_leaves (h : Leaves program s jump) :
    runFrom program n limit (left + 1) s = .error (.outOfBounds jump) := by
  obtain ⟨index, offset⟩ := jump
  obtain ⟨rfl, hget, houtside⟩ := h
  have hlands : program.landing? s.index = none := by
    simp only [Program.landing?, hget, Option.bind_some, Instruction.landing?,
      Instruction.target?, if_neg houtside]
  rw [runFrom]
  simp only [hget, hlands, if_true]

theorem runFrom_zero (h : s.index < program.length) :
    runFrom program n limit 0 s = .error (.stepLimit limit) := by
  simp only [runFrom, List.getElem?_eq_getElem h]

/-- The checked run follows the machine as long as that stays in the program. -/
theorem runFrom_of_inside (h : Inside program n k s s') (left : Nat) :
    runFrom program n limit (k + left) s = runFrom program n limit left s' := by
  induction h with
  | refl s => rw [Nat.zero_add]
  | @next k s s' s'' hstep hstays _ ih =>
    rw [Nat.add_right_comm, runFrom_succ hstays, hstep]
    exact ih

/-- What the machine does where a checked run from `s` with `left` steps has an outcome. -/
def Tells (program : Program) (n : Int64) (limit left : Nat) (s : State) :
    Except Fault Int64 → Prop
  | .ok v => ∃ k j s', Inside program n k s s' ∧ Halts program s' v j ∧ k + j ≤ left
  | .error (.outOfBounds jump) =>
    ∃ k < left, ∃ s', Inside program n k s s' ∧ Leaves program s' jump
  | .error (.stepLimit l) =>
    l = limit ∧ ∃ s', Inside program n left s s' ∧ s'.index < program.length

/-- A step inside the program leads up to what follows it. -/
theorem Tells.before_step {outcome : Except Fault Int64} (hstep : step program n s = .next s')
    (hstays : ∀ jump, ¬Leaves program s jump) (h : Tells program n limit left s' outcome) :
    Tells program n limit (left + 1) s outcome := by
  match outcome, h with
  | .ok v, ⟨k, j, t, hinside, hhalts, hle⟩ =>
    exact ⟨k + 1, j, t, .next hstep hstays hinside, hhalts, by omega⟩
  | .error (.outOfBounds jump), ⟨k, hlt, t, hinside, hleaves⟩ =>
    exact ⟨k + 1, by omega, t, .next hstep hstays hinside, hleaves⟩
  | .error (.stepLimit l), ⟨hl, t, hinside, hlt⟩ =>
    exact ⟨hl, t, .next hstep hstays hinside, hlt⟩

theorem halts_of_done (hlt : s.index < program.length) (h : step program n s = .done v) :
    Halts program s v 1 := .inr ⟨ret_of_done hlt h, rfl⟩

theorem tells_end (h : program.length ≤ s.index) (n : Int64) (limit left : Nat) :
    Tells program n limit left s (runFrom program n limit left s) := by
  rw [runFrom_end h]
  exact ⟨0, 0, s, .refl s, .inl ⟨h, rfl, rfl⟩, Nat.zero_le left⟩

/-- The outcome of a checked run tells what the machine does. Each turn takes one step of the
budget, so the induction is on what is left of it. -/
theorem tells_runFrom (program : Program) (n : Int64) (limit left : Nat) (s : State) :
    Tells program n limit left s (runFrom program n limit left s) := by
  induction left generalizing s with
  | zero =>
    by_cases hlt : s.index < program.length
    · rw [runFrom_zero hlt]
      exact ⟨rfl, s, .refl s, hlt⟩
    · exact tells_end (Nat.not_lt.mp hlt) n limit 0
  | succ left ih =>
    by_cases hlt : s.index < program.length
    · by_cases hleaves : ∃ jump, Leaves program s jump
      · obtain ⟨jump, hjump⟩ := hleaves
        rw [runFrom_of_leaves hjump]
        exact ⟨0, Nat.succ_pos left, s, .refl s, hjump⟩
      · rw [not_exists] at hleaves
        rw [runFrom_succ hleaves]
        cases hstep : step program n s with
        | done v => exact ⟨0, 1, s, .refl s, halts_of_done hlt hstep, by omega⟩
        | next s' => exact .before_step hstep hleaves (ih s')
    · exact tells_end (Nat.not_lt.mp hlt) n limit (left + 1)

/-- Each outcome of a checked run against what the unchecked run does: it ends within the limit
without leaving the program; it leaves the program within the limit, and then `exec` yields the
status at that moment; or it goes on past the limit. -/
theorem run_outcome_iff (program : Program) (limit : Nat) (n : Int64) :
    (∀ v, run program limit n = .ok v ↔ exec program n = some v ∧
      ∃ k j s, Inside program n k (.start n) s ∧ Halts program s v j ∧ k + j ≤ limit) ∧
    (∀ jump, run program limit n = .error (.outOfBounds jump) ↔
      ∃ k < limit, ∃ s, Inside program n k (.start n) s ∧ Leaves program s jump) ∧
    (∀ k s jump, Inside program n k (.start n) s → Leaves program s jump →
      exec program n = some (wordOfBool s.status)) ∧
    ∀ l, run program limit n = .error (.stepLimit l) ↔
      l = limit ∧ ∃ s, Inside program n limit (.start n) s ∧ s.index < program.length := by
  have htells := tells_runFrom program n limit limit (.start n)
  rw [← run] at htells
  refine ⟨fun v => ?_, fun jump => ?_, fun k s jump hinside hleaves => ?_, fun l => ?_⟩
  · constructor
    · intro hrun
      rw [hrun] at htells
      obtain ⟨k, j, s, hinside, hhalts, hle⟩ := htells
      have hends := (ends_of_halts hhalts).before_steps hinside.steps
      exact ⟨exec_eq_some_iff.mpr hends, k, j, s, hinside, hhalts, hle⟩
    · rintro ⟨-, k, j, s, hinside, hhalts, hle⟩
      obtain ⟨left, rfl⟩ := Nat.exists_eq_add_of_le (Nat.le_of_add_right_le hle)
      rw [run, runFrom_of_inside hinside]
      exact runFrom_of_halts hhalts (by omega)
  · constructor
    · intro hrun
      rwa [hrun] at htells
    · rintro ⟨k, hlt, s, hinside, hleaves⟩
      obtain ⟨left, rfl⟩ := Nat.exists_eq_add_of_lt hlt
      rw [run, Nat.add_assoc, runFrom_of_inside hinside]
      exact runFrom_of_leaves hleaves
  · have hends := (ends_of_leaves hleaves).before_steps hinside.steps
    exact exec_eq_some_iff.mpr hends
  · constructor
    · intro hrun
      rwa [hrun] at htells
    · rintro ⟨rfl, s, hinside, hlt⟩
      rw [run, ← runFrom_zero hlt]
      exact runFrom_of_inside hinside 0

theorem run_outcome_iff_overshoot :
    Inside [.test .eq 0, .jump true 4] 0 1 (.start 0) ⟨1, 0, true⟩ ∧
      Leaves [.test .eq 0, .jump true 4] ⟨1, 0, true⟩ ⟨1, 4⟩ ∧
      run [.test .eq 0, .jump true 4] 2 0 = .error (.outOfBounds ⟨1, 4⟩) ∧
      exec [.test .eq 0, .jump true 4] 0 = some (wordOfBool true) := by
  have hinside : Inside [.test .eq 0, .jump true 4] 0 1 (.start 0) ⟨1, 0, true⟩ := by
    refine .next rfl ?_ (.refl _)
    rintro ⟨_, _⟩ ⟨rfl, hget, -⟩
    simp [State.start] at hget
  have hleaves : Leaves [.test .eq 0, .jump true 4] ⟨1, 0, true⟩ ⟨1, 4⟩ := ⟨rfl, rfl, by decide⟩
  obtain ⟨-, houtside, hexec, -⟩ := run_outcome_iff [.test .eq 0, .jump true 4] 2 0
  exact ⟨hinside, hleaves, (houtside _).mpr ⟨1, by decide, _, hinside, hleaves⟩,
    hexec _ _ _ hinside hleaves⟩

end PluralForms.Machine
