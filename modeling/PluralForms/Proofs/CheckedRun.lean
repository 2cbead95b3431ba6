import PluralForms.Proofs.Landing

/-! Checked runs. Such a run takes the steps of the machine, as far as its limit allows and no jump
leaves the program; and where all jumps go forward inside the program, a limit of as many steps as
there are instructions is enough. -/

namespace PluralForms.Machine

variable {program : Program} {n : Int64} {s s' : State} {jump : InvalidJump} {limit left : Nat}

/-- At `s` the run takes a jump whose target lies outside the program and is not its end. -/
def Leaves (program : Program) (s : State) (jump : InvalidJump) : Prop :=
  jump.index = s.index ∧ program[jump.index]? = some (.jump s.status jump.offset) ∧
    ¬(0 ≤ (jump.index : Int) + 1 + jump.offset ∧
      (jump.index : Int) + 1 + jump.offset ≤ program.length)

theorem not_leaves_of_valid (hvalid : program.invalidJump? = none) (s : State)
    (jump : InvalidJump) : ¬Leaves program s jump := by
  rintro ⟨-, hget, houtside⟩
  obtain ⟨target, htarget⟩ := Program.exists_landing hvalid hget
  obtain ⟨hplace, hle⟩ := Instruction.landing?_jump_eq_some_iff.mp htarget
  omega

/-- A jump that stays in the program goes where the unchecked machine goes. -/
theorem landing?_of_stays (hstays : ∀ jump, ¬Leaves program s jump) {offset : Int}
    (hget : program[s.index]? = some (.jump s.status offset)) :
    program.landing? s.index = some (jumpIndex program.length s.index offset) := by
  by_cases hinside : 0 ≤ (s.index : Int) + 1 + offset ∧
      (s.index : Int) + 1 + offset ≤ program.length
  · simp [Program.landing?, hget, Instruction.landing?, Instruction.target?, jumpIndex, hinside]
  · exact absurd ⟨rfl, hget, hinside⟩ (hstays ⟨s.index, offset⟩)

/-- One instruction of a checked run is a step of the machine, unless it leaves the program. -/
theorem runFrom_succ (hstays : ∀ jump, ¬Leaves program s jump) (n : Int64) (limit left : Nat) :
    runFrom program n limit (left + 1) s =
      match step program n s with
      | .done v => .ok v
      | .next s' => runFrom program n limit left s' := by
  rw [runFrom]
  cases hget : program[s.index]? with
  | none => simp [step, hget]
  | some instruction =>
    cases instruction with
    | jump on offset =>
      by_cases htaken : s.status = on
      · subst htaken
        simp [step, hget, landing?_of_stays hstays hget]
      · simp [step, hget, htaken]
    | load | arith | loadMod =>
      simp [step, hget, Instruction.opcode, Opcode.apply, Instruction.constant]
    | ret | test => simp [step, hget]

theorem runFrom_end (h : program.length ≤ s.index) :
    runFrom program n limit left s = .ok (wordOfBool s.status) := by
  have hnone : program[s.index]? = none := List.getElem?_eq_none h
  cases left <;> simp only [runFrom, hnone]

/-- Where no jump goes backward, a step leads to a later instruction. -/
theorem index_lt_of_step (hforward : program.isForward = true)
    (hvalid : program.invalidJump? = none) (hstep : step program n s = .next s') :
    s.index < s'.index := by
  cases hget : program[s.index]? with
  | none => simp [step, hget] at hstep
  | some instruction =>
    cases instruction with
    | jump on offset =>
      obtain ⟨target, htarget⟩ := Program.exists_landing hvalid hget
      rw [step_jump hget] at hstep
      obtain rfl := Step.next.inj hstep
      split
      · show s.index < jumpIndex program.length s.index offset
        rw [Instruction.jumpIndex_of_landing htarget]
        exact Program.lt_of_landing hforward hget htarget
      · exact Nat.lt_succ_self _
    | ret value => simp [step, hget] at hstep
    | load | arith | loadMod | test =>
      simp only [step, hget] at hstep
      obtain rfl := Step.next.inj hstep
      exact Nat.lt_succ_self _

/-- Where no jump goes backward, a run comes to no earlier instruction. -/
theorem index_le_of_steps (hforward : program.isForward = true)
    (hvalid : program.invalidJump? = none)
    (hsteps : Relation.ReflTransGen (system program n).Next s s') : s.index ≤ s'.index := by
  induction hsteps with
  | refl => exact le_refl _
  | tail _ hn ih => exact ih.trans (index_lt_of_step hforward hvalid (next_iff.mp hn)).le

/-- A forward run ends within as many steps as there are instructions from its place on. -/
theorem runFrom_of_forward (limit : Nat) (hforward : program.isForward = true)
    (hvalid : program.invalidJump? = none) (hleft : program.length ≤ s.index + left) :
    ∃ v, runFrom program n limit left s = .ok v ∧ (system program n).Ends s v := by
  induction left generalizing s with
  | zero =>
    have hend : program.length ≤ s.index := hleft
    exact ⟨_, runFrom_end hend, ends_of_done (step_end hend)⟩
  | succ left ih =>
    rw [runFrom_succ (not_leaves_of_valid hvalid s)]
    cases hstep : step program n s with
    | done v => exact ⟨v, rfl, ends_of_done hstep⟩
    | next s' =>
      have hlt := index_lt_of_step hforward hvalid hstep
      obtain ⟨v, hrun, hends⟩ := @ih s' (by omega)
      exact ⟨v, hrun, System.Ends.before_steps (.single (next_iff.mpr hstep)) hends⟩

/-- A valid program whose jumps all go forward ends for each count, and a checked run with at least
as many steps as instructions has its result. -/
theorem run_of_forward (hforward : program.isForward = true)
    (hvalid : program.invalidJump? = none) (n : Int64) (hlimit : program.length ≤ limit) :
    ∃ v, exec program n = some v ∧ run program limit n = .ok v := by
  have hleft : program.length ≤ (State.start n).index + limit := by
    rwa [State.start, Nat.zero_add]
  obtain ⟨v, hrun, hends⟩ := runFrom_of_forward limit hforward hvalid hleft
  exact ⟨v, exec_eq_some_iff.mpr hends, hrun⟩

end PluralForms.Machine
