import PluralForms.Selection
import PluralForms.Proofs.Landing

/-! The code of a selection returns its value. A condition is left at the end of its code or by a
jump past it, and in both cases the status tells whether the condition holds. -/

namespace PluralForms

open Relation

namespace Machine

variable {p : Program} {n : Int64} {s : State}

/-- The run from `s` comes to `stop`, or leaves early by a jump to `onTrue` or `onFalse` places
after it, with the status `holds`. -/
def Arrives (p : Program) (n : Int64) (s : State) (stop onTrue onFalse : Nat) (holds : Bool) :
    Prop :=
  ∃ index register, ReflTransGen (system p n).Next s ⟨index, register, holds⟩ ∧
    (index = stop ∨ index = stop + if holds then onTrue else onFalse)

/-- A jump behind a condition separates the two cases: where the jump is not taken, the run goes on
behind it. -/
theorem Arrives.branch (on : Bool) (distance : Nat) {stop : Nat} {holds : Bool}
    (h : Arrives p n s stop (if on then 1 + distance else 1) (if on then 1 else 1 + distance) holds)
    (hjump : p[stop]? = some (.jump on distance)) (hle : stop + 1 + distance ≤ p.length) :
    ∃ register, ReflTransGen (system p n).Next s
      ⟨stop + 1 + if holds = on then distance else 0, register, holds⟩ := by
  obtain ⟨index, register, hsteps, rfl | hindex⟩ := h
  · have hstep := step_jump (n := n) (s := ⟨index, register, holds⟩) hjump
    have hlanding : (Instruction.jump on distance).landing? p.length index =
        some (index + 1 + distance) :=
      Instruction.landing?_eq_some_iff.mpr ⟨on, distance, rfl, by omega, hle⟩
    rw [Instruction.jumpIndex_of_landing hlanding] at hstep
    refine ⟨register, hsteps.tail (next_iff.mpr (hstep.trans ?_))⟩
    split <;> rfl
  · refine ⟨register, ?_⟩
    have hsame : index = stop + 1 + if holds = on then distance else 0 := by
      rw [hindex]
      cases on <;> cases holds <;> simp [Nat.add_assoc]
    exact hsame ▸ hsteps

/-- A jump between two conditions passes over the second, of `size` instructions, where the first
decides. -/
theorem Arrives.connect (on : Bool) {stop size onTrue onFalse : Nat} {left right : Bool}
    (hleft : Arrives p n s stop
      (if on then 1 + (size + if on then onTrue else onFalse) else 1)
      (if on then 1 else 1 + (size + if on then onTrue else onFalse)) left)
    (hjump : p[stop]? = some (.jump on ((size + if on then onTrue else onFalse : Nat) : Int)))
    (hle : stop + 1 + (size + if on then onTrue else onFalse) ≤ p.length)
    (hright : ∀ register,
      Arrives p n ⟨stop + 1, register, left⟩ (stop + 1 + size) onTrue onFalse right) :
    Arrives p n s (stop + 1 + size) onTrue onFalse (if left = on then on else right) := by
  obtain ⟨register, hsteps⟩ := hleft.branch on _ hjump hle
  by_cases hdecides : left = on
  · subst hdecides
    rw [if_pos rfl] at hsteps ⊢
    exact ⟨_, register, hsteps, .inr (Nat.add_assoc _ _ _).symm⟩
  · rw [if_neg hdecides] at hsteps ⊢
    obtain ⟨index, register', hsteps', hindex⟩ := hright register
    exact ⟨index, register', hsteps.trans hsteps', hindex⟩

end Machine

open Machine

variable {p : Program} {n : Int64} {s : State}

theorem Chain.altersRegister_of_mem_code {chain : Chain} {instruction : Instruction}
    (h : instruction ∈ chain.code) : instruction.altersRegister = true := by
  simp only [code, List.mem_cons, List.mem_map] at h
  rcases h with rfl | ⟨link, -, rfl⟩ <;> rfl

/-- The instructions of a chain calculate its value from any register. -/
theorem Chain.foldl_code (chain : Chain) (n r : Int64) :
    chain.code.foldl (fun r instruction => instruction.register n r) r = chain.apply n := by
  simp [code, apply, Instruction.register, List.foldl_map]

namespace Condition

variable {onTrue onFalse : Nat}

theorem arrives (condition : Condition) (hcode : condition.code onTrue onFalse <+: p.drop s.index)
    (htrue : s.index + (condition.code onTrue onFalse).length + onTrue ≤ p.length)
    (hfalse : s.index + (condition.code onTrue onFalse).length + onFalse ≤ p.length) :
    Arrives p n s (s.index + (condition.code onTrue onFalse).length) onTrue onFalse
      (condition.holds n) := by
  induction condition generalizing s onTrue onFalse with
  | compare chain comparison operand =>
    obtain ⟨hchain, htest⟩ := prefix_of_append hcode
    have hsteps := steps_run (n := n) (fun _ h => Chain.altersRegister_of_mem_code h) hchain
    rw [Chain.foldl_code] at hsteps
    have hstep := step_test (n := n)
      (s := ⟨s.index + chain.code.length, chain.apply n, s.status⟩) (getElem?_of_cons_part htest)
    exact ⟨_, _, hsteps.tail (next_iff.mpr hstep), .inl (by simp [code, Nat.add_assoc])⟩
  | and left right ihLeft ihRight =>
    simp only [code, List.length_append, List.length_cons] at hcode htrue hfalse ⊢
    generalize hsecond : right.code onTrue onFalse = second at *
    generalize hfirst : left.code 1 (1 + (second.length + onFalse)) = first at *
    obtain ⟨hfirstCode, hrest⟩ := prefix_of_append hcode
    have hleft := ihLeft (hfirst ▸ hfirstCode) (by rw [hfirst]; omega) (by rw [hfirst]; omega)
    have hright := fun register => ihRight
      (s := ⟨s.index + first.length + 1, register, left.holds n⟩)
      (hsecond ▸ prefix_of_cons hrest)
      (by rw [hsecond]; dsimp only; omega) (by rw [hsecond]; dsimp only; omega)
    rw [hfirst] at hleft
    simp only [hsecond] at hright
    have hholds : (and left right).holds n =
        if left.holds n = false then false else right.holds n := by
      rw [holds]
      cases left.holds n <;> rfl
    rw [hholds, show s.index + (first.length + (second.length + 1)) =
      s.index + first.length + 1 + second.length by omega]
    exact hleft.connect false (getElem?_of_cons_part hrest)
      (by rw [if_neg Bool.false_ne_true]; omega) hright
  | or left right ihLeft ihRight =>
    simp only [code, List.length_append, List.length_cons] at hcode htrue hfalse ⊢
    generalize hsecond : right.code onTrue onFalse = second at *
    generalize hfirst : left.code (1 + (second.length + onTrue)) 1 = first at *
    obtain ⟨hfirstCode, hrest⟩ := prefix_of_append hcode
    have hleft := ihLeft (hfirst ▸ hfirstCode) (by rw [hfirst]; omega) (by rw [hfirst]; omega)
    have hright := fun register => ihRight
      (s := ⟨s.index + first.length + 1, register, left.holds n⟩)
      (hsecond ▸ prefix_of_cons hrest)
      (by rw [hsecond]; dsimp only; omega) (by rw [hsecond]; dsimp only; omega)
    rw [hfirst] at hleft
    simp only [hsecond] at hright
    have hholds : (or left right).holds n =
        if left.holds n = true then true else right.holds n := by
      rw [holds]
      cases left.holds n <;> rfl
    rw [hholds, show s.index + (first.length + (second.length + 1)) =
      s.index + first.length + 1 + second.length by omega]
    exact hleft.connect true (getElem?_of_cons_part hrest) (by rw [if_pos rfl]; omega) hright

end Condition

namespace Selection

/-- The code of a selection ends with its value wherever it stands. -/
theorem ends (selection : Selection) (hcode : selection.code <+: p.drop s.index) :
    (system p n).Ends s (selection.eval n) := by
  have hsize := hcode.length_le
  rw [List.length_drop] at hsize
  induction selection generalizing s with
  | constant value =>
    exact ends_of_done (step_ret (getElem?_of_cons_part hcode))
  | test condition =>
    simp only [code, List.length_append, List.length_cons, List.length_nil] at hcode hsize
    generalize hfirst : condition.code 1 2 = first at *
    obtain ⟨hfirstCode, hrest⟩ := prefix_of_append hcode
    have harrives := condition.arrives (n := n) (hfirst ▸ hfirstCode)
      (by rw [hfirst]; omega) (by rw [hfirst]; omega)
    rw [hfirst] at harrives
    obtain ⟨register, hsteps⟩ := harrives.branch false 1 (getElem?_of_cons_part hrest) (by omega)
    refine System.Ends.before_steps hsteps (ends_of_done (step_ret ?_))
    simp only [eval]
    cases condition.holds n with
    | true => exact getElem?_of_part hrest (k := 1) (by simp)
    | false => exact getElem?_of_part hrest (k := 2) (by simp)
  | choose condition yes no ihYes ihNo =>
    simp only [code, List.length_append, List.length_cons] at hcode hsize
    generalize hfirst : condition.code 1 (1 + yes.code.length) = first at *
    obtain ⟨hfirstCode, hrest⟩ := prefix_of_append hcode
    obtain ⟨hyes, hno⟩ := prefix_of_append (prefix_of_cons hrest)
    have harrives := condition.arrives (n := n) (hfirst ▸ hfirstCode)
      (by rw [hfirst]; omega) (by rw [hfirst]; omega)
    rw [hfirst] at harrives
    obtain ⟨register, hsteps⟩ := harrives.branch false yes.code.length
      (getElem?_of_cons_part hrest) (by omega)
    refine System.Ends.before_steps hsteps ?_
    simp only [eval]
    cases condition.holds n with
    | true => exact ihYes hyes (by simpa using hyes.length_le)
    | false => exact ihNo hno (by simpa using hno.length_le)

/-- The program of a selection ends with its value for each count. -/
theorem exec_program (selection : Selection) (n : Int64) :
    exec selection.program n = some (selection.eval n) := by
  rw [exec_eq_some_iff]
  cases selection with
  | test condition =>
    obtain ⟨index, register, hsteps, hindex⟩ := condition.arrives (n := n) (s := .start n)
      (p := condition.code 0 0) (List.prefix_refl _) (by simp [State.start]) (by simp [State.start])
    refine System.Ends.before_steps hsteps (ends_of_done (step_end ?_))
    simp only [State.start, Nat.zero_add, ite_self, Nat.add_zero, or_self] at hindex
    exact Nat.le_of_eq hindex.symm
  | constant _ | choose _ _ _ => exact ends _ (List.prefix_refl _)

end Selection

end PluralForms
