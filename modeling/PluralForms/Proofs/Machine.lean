import Mathlib.Data.Fintype.Prod
import PluralForms.Machine
import PluralForms.Proofs.Transition

/-! The machine as a deterministic system: the step of each kind of instruction, the fact that a run
that ends takes fewer steps than there are states, by which `exec` gives the result of every run
that ends, the number of instructions of a run, and a way to show that a program follows the runs of
another and does not need more instructions for them. -/

namespace PluralForms

open Relation

/-- The value of `R` after an instruction that finds `r` there. -/
def Instruction.register (n r : Int64) : Instruction → Int64
  | .load _ => n
  | .arith op operand => op.apply r operand
  | .loadMod operand => Arithmetic.mod.apply n operand
  | .ret _ | .jump _ _ | .test _ _ => r

namespace Machine

variable {program : Program} {n v : Int64} {s s' : State} {instruction : Instruction}

/-! ### Steps -/

theorem step_end (h : program.length ≤ s.index) :
    step program n s = .done (wordOfBool s.status) := by
  simp [step, List.getElem?_eq_none h]

theorem step_ret (h : program[s.index]? = some (.ret v)) : step program n s = .done v := by
  simp [step, h]

theorem step_jump {on : Bool} {offset : Int} (h : program[s.index]? = some (.jump on offset)) :
    step program n s = .next { s with
      index :=
        if s.status = on then jumpIndex program.length s.index offset else s.index + 1 } := by
  simp only [step, h]
  split <;> rfl

theorem step_test {comparison : Comparison} {operand : Int64}
    (h : program[s.index]? = some (.test comparison operand)) :
    step program n s =
      .next ⟨s.index + 1, s.register, comparison.holds s.register operand⟩ := by
  simp [step, h]

/-- An instruction that alters the register changes nothing else. -/
theorem step_alter (h : program[s.index]? = some instruction)
    (ha : instruction.altersRegister = true) :
    step program n s =
      .next ⟨s.index + 1, instruction.register n s.register, s.status⟩ := by
  cases instruction <;> simp_all [step, Instruction.register, Instruction.altersRegister,
    Instruction.opcode, Opcode.altersRegister]

/-- Before the end of the program only a return ends a run. -/
theorem ret_of_done (hlt : s.index < program.length) (h : step program n s = .done v) :
    program[s.index]? = some (.ret v) := by
  have hget := List.getElem?_eq_getElem hlt
  cases hinstruction : program[s.index] with
  | ret value =>
    rw [hinstruction] at hget
    rw [step_ret hget] at h
    obtain rfl := Step.done.inj h
    exact hget
  | jump on offset =>
    rw [hinstruction] at hget
    rw [step_jump hget] at h
    cases h
  | test comparison operand =>
    rw [hinstruction] at hget
    rw [step_test hget] at h
    cases h
  | load | arith | loadMod =>
    rw [hinstruction] at hget
    rw [step_alter hget rfl] at h
    cases h

theorem jumpIndex_le (size index : Nat) (offset : Int) : jumpIndex size index offset ≤ size := by
  simp only [jumpIndex]
  split <;> omega

/-- No step leads past the end of the program. -/
theorem step_index_le (h : step program n s = .next s') : s'.index ≤ program.length := by
  simp only [step] at h
  split at h
  · simp at h
  · simp at h
  · have hlt := (List.getElem?_eq_some_iff.mp ‹_›).1
    split at h <;> obtain rfl := Step.next.inj h
    · exact jumpIndex_le _ _ _
    · exact hlt
  all_goals
    have hlt := (List.getElem?_eq_some_iff.mp ‹_›).1
    obtain rfl := Step.next.inj h
    exact hlt

/-! ### Runs -/

/-- The runs of a program for the count `n`. -/
def system (program : Program) (n : Int64) : System State Int64 where
  step s :=
    match step program n s with
    | .next s' => some (.inl s')
    | .done v => some (.inr v)

theorem next_iff : (system program n).Next s s' ↔ step program n s = .next s' := by
  simp only [System.Next, system]
  cases step program n s <;> simp

theorem done_iff : (system program n).step s = some (.inr v) ↔ step program n s = .done v := by
  simp only [system]
  cases step program n s <;> simp

theorem ends_of_done (h : step program n s = .done v) : (system program n).Ends s v :=
  ⟨0, .done (done_iff.mpr h)⟩

theorem steps_index_le (h : TransGen (system program n).Next s s') :
    s'.index ≤ program.length := by
  obtain ⟨_, -, hn⟩ := TransGen.tail'_iff.mp h
  exact step_index_le (next_iff.mp hn)

theorem getElem?_of_part {part : Program} {index k : Nat} (h : part <+: program.drop index)
    (hk : k < part.length) : program[index + k]? = part[k]? := by
  obtain ⟨tail, htail⟩ := h
  rw [← List.getElem?_drop, ← htail, List.getElem?_append_left hk]

theorem getElem?_of_cons_part {rest : Program} {index : Nat}
    (h : instruction :: rest <+: program.drop index) : program[index]? = some instruction :=
  getElem?_of_part h (k := 0) (Nat.zero_lt_succ _)

theorem prefix_of_cons {rest : Program} {index : Nat}
    (h : instruction :: rest <+: program.drop index) : rest <+: program.drop (index + 1) := by
  obtain ⟨tail, htail⟩ := h
  refine ⟨tail, ?_⟩
  rw [← List.tail_drop, ← htail]
  rfl

/-- A part of the program that is composed of two has them one behind the other. -/
theorem prefix_of_append {first second : Program} {index : Nat}
    (h : first ++ second <+: program.drop index) :
    first <+: program.drop index ∧ second <+: program.drop (index + first.length) := by
  obtain ⟨tail, htail⟩ := h
  refine ⟨⟨second ++ tail, by rw [← htail, List.append_assoc]⟩, ⟨tail, ?_⟩⟩
  rw [← List.drop_drop, ← htail, List.append_assoc, List.drop_left]

/-- Instructions that alter the register are passed one after the other. -/
theorem steps_run {run : Program} (halters : ∀ instruction ∈ run, instruction.altersRegister = true)
    (hrun : run <+: program.drop s.index) :
    ReflTransGen (system program n).Next s
      ⟨s.index + run.length, run.foldl (fun r i => i.register n r) s.register, s.status⟩ := by
  induction run generalizing s with
  | nil => exact .refl
  | cons first rest ih =>
    have hstep := step_alter (n := n) (getElem?_of_cons_part hrun)
      (halters first List.mem_cons_self)
    have hsteps := ih (s := ⟨s.index + 1, first.register n s.register, s.status⟩)
      (fun instruction h => halters instruction (List.mem_cons_of_mem _ h)) (prefix_of_cons hrun)
    refine .head (next_iff.mpr hstep) ?_
    simpa [Nat.add_assoc, Nat.add_comm 1] using hsteps

theorem steps_of_index_lt (h : ReflTransGen (system program n).Next s s')
    (hlt : s.index < s'.index) : TransGen (system program n).Next s s' := by
  rcases reflTransGen_iff_eq_or_transGen.mp h with rfl | h
  · omega
  · exact h

theorem execFrom_eq_some_iff {fuel : Nat} :
    execFrom program n fuel s = some v ↔ ∃ k < fuel, (system program n).EndsIn v k s := by
  induction fuel generalizing s with
  | zero => simp [execFrom]
  | succ fuel ih =>
    simp only [execFrom]
    cases hs : step program n s with
    | done w =>
      constructor
      · intro h
        obtain rfl := Option.some.inj h
        exact ⟨0, by omega, .done (done_iff.mpr hs)⟩
      · rintro ⟨k, -, hk⟩
        exact congrArg some (hk.unique (.done (done_iff.mpr hs))).1.symm
    | next s' =>
      have hn := next_iff.mpr hs
      rw [ih]
      constructor
      · rintro ⟨k, hk, hend⟩
        exact ⟨k + 1, by omega, .next hn hend⟩
      · rintro ⟨k, hk, hend⟩
        obtain ⟨j, hj, hend'⟩ := hend.after_steps (.single hn)
        exact ⟨j, by omega, hend'⟩

/-- A run that ends has a state with each smaller number of further states. -/
theorem exists_endsIn {j k : Nat} (h : (system program n).EndsIn v k s)
    (hs : s.index ≤ program.length) (hj : j ≤ k) :
    ∃ s', s'.index ≤ program.length ∧ (system program n).EndsIn v j s' := by
  induction h with
  | @done s hd =>
    obtain rfl : j = 0 := by omega
    exact ⟨s, hs, .done hd⟩
  | @next k s s' hn hend ih =>
    rcases Nat.lt_or_eq_of_le hj with hlt | rfl
    · exact ih (step_index_le (next_iff.mp hn)) (by omega)
    · exact ⟨s, hs, .next hn hend⟩

/-- A run that ends visits no state twice, as the number of states that follow differs. -/
theorem lt_stateCount {k : Nat} (h : (system program n).EndsIn v k s)
    (hs : s.index ≤ program.length) : k < stateCount program := by
  choose f hf using fun j : Fin (k + 1) => exists_endsIn h hs (Nat.le_of_lt_succ j.isLt)
  let code (j : Fin (k + 1)) : Fin (program.length + 1) × Fin (2 ^ 64) × Bool :=
    (Fin.ofNat _ (f j).index, (f j).register.toBitVec.toFin, (f j).status)
  have code_injective : Function.Injective code := by
    intro i j hij
    obtain ⟨hi, hendi⟩ := hf i
    obtain ⟨hj, hendj⟩ := hf j
    obtain ⟨hindex, hregister, hstatus⟩ : (f i).index = (f j).index ∧
        (f i).register = (f j).register ∧ (f i).status = (f j).status := by
      simp only [code, Prod.mk.injEq, Fin.ext_iff, Fin.ofNat] at hij
      rw [Nat.mod_eq_of_lt (by omega), Nat.mod_eq_of_lt (by omega)] at hij
      exact ⟨hij.1, Int64.toBitVec_inj.mp (BitVec.eq_of_toFin_eq (Fin.ext hij.2.1)), hij.2.2⟩
    have hstate : f i = f j := by
      generalize f i = a at *
      generalize f j = b at *
      cases a
      cases b
      simp_all
    exact Fin.ext (hendi.unique (hstate ▸ hendj)).2
  have hcard := Fintype.card_le_of_injective code code_injective
  rw [Fintype.card_prod, Fintype.card_prod, Fintype.card_fin, Fintype.card_fin, Fintype.card_fin,
    Fintype.card_bool] at hcard
  simp only [stateCount, UInt64.size]
  omega

/-- `exec` gives the result of every run that ends. -/
theorem exec_eq_some_iff :
    exec program n = some v ↔ (system program n).Ends (.start n) v := by
  rw [exec, execFrom_eq_some_iff]
  exact ⟨fun ⟨k, _, h⟩ => ⟨k, h⟩, fun ⟨k, h⟩ => ⟨k, lt_stateCount h (Nat.zero_le _), h⟩⟩

/-! ### The instructions of a run -/

/-- The run from a state executes `k` instructions and ends with `v`. At the end of the program
there is no instruction. -/
inductive Executes (program : Program) (n v : Int64) : Nat → State → Prop
  | atEnd {s : State} : program.length ≤ s.index → wordOfBool s.status = v →
      Executes program n v 0 s
  | ret {s : State} : program[s.index]? = some (.ret v) → Executes program n v 1 s
  | next {k : Nat} {s s' : State} : step program n s = .next s' → Executes program n v k s' →
      Executes program n v (k + 1) s

theorem executes_of_done (h : step program n s = .done v) :
    ∃ k ≤ 1, Executes program n v k s ∧ (k = 1 → s.index < program.length) := by
  by_cases hlt : s.index < program.length
  · exact ⟨1, le_refl 1, .ret (ret_of_done hlt h), fun _ => hlt⟩
  · rw [step_end (Nat.not_lt.mp hlt)] at h
    exact ⟨0, Nat.zero_le 1, .atEnd (Nat.not_lt.mp hlt) (Step.done.inj h), nofun⟩

theorem Executes.ends {k : Nat} (h : Executes program n v k s) : (system program n).Ends s v := by
  induction h with
  | atEnd hend hv => exact ends_of_done (hv ▸ step_end hend)
  | ret hret => exact ends_of_done (step_ret hret)
  | next hstep _ ih => exact .before_steps (.single (next_iff.mpr hstep)) ih

/-- A run that ends executes some number of instructions. -/
theorem exists_executes_iff :
    (∃ k, Executes program n v k s) ↔ (system program n).Ends s v := by
  constructor
  · rintro ⟨k, h⟩
    exact h.ends
  · rintro ⟨k, h⟩
    induction h with
    | done hdone =>
      obtain ⟨k, -, hrun, -⟩ := executes_of_done (done_iff.mp hdone)
      exact ⟨k, hrun⟩
    | next hnext _ ih =>
      obtain ⟨k, hrun⟩ := ih
      exact ⟨k + 1, .next (next_iff.mp hnext) hrun⟩

/-- A run that is over executes one instruction at most. -/
theorem Executes.of_done {k : Nat} {w : Int64} (h : Executes program n v k s)
    (hdone : step program n s = .done w) :
    w = v ∧ (s.index < program.length → k = 1) := by
  cases h with
  | atEnd hend hv =>
    rw [step_end hend] at hdone
    exact ⟨(Step.done.inj hdone).symm.trans hv, fun hlt => absurd hlt (Nat.not_lt.mpr hend)⟩
  | ret hret =>
    rw [step_ret hret] at hdone
    exact ⟨(Step.done.inj hdone).symm, fun _ => rfl⟩
  | next hstep _ =>
    rw [hstep] at hdone
    cases hdone

theorem Executes.of_next {k : Nat} (h : Executes program n v k s)
    (hstep : step program n s = .next s') : ∃ j, k = j + 1 ∧ Executes program n v j s' := by
  cases h with
  | atEnd hend _ =>
    rw [step_end hend] at hstep
    cases hstep
  | ret hret =>
    rw [step_ret hret] at hstep
    cases hstep
  | next hstep' hrun =>
    obtain rfl := Step.next.inj (hstep'.symm.trans hstep)
    exact ⟨_, rfl, hrun⟩

/-- From a state that lies on its way, a run executes fewer instructions. -/
theorem Executes.after_steps {k : Nat} (h : Executes program n v k s)
    (hs : TransGen (system program n).Next s s') : ∃ j < k, Executes program n v j s' := by
  induction hs using TransGen.head_induction_on generalizing k with
  | single hn =>
    obtain ⟨j, rfl, hrun⟩ := h.of_next (next_iff.mp hn)
    exact ⟨j, Nat.lt_succ_self j, hrun⟩
  | head hn _ ih =>
    obtain ⟨j, rfl, hrun⟩ := h.of_next (next_iff.mp hn)
    obtain ⟨i, hi, hrun⟩ := ih hrun
    exact ⟨i, by omega, hrun⟩

/-! ### Programs that follow others -/

/-- The run of `q` for the count `n` follows that of `p`. It starts together with it and ends
together with it; one or more steps of `p` from a state `s` in which `holds` is true lead to another
such state, while `q` takes one step, or none if `p` has come forward. The state of `q` is always
`move s`. -/
structure Follows (p q : Program) (n : Int64) (holds : State → Prop) (move : State → State) :
    Prop where
  start : holds (.start n) ∧ move (.start n) = .start n
  advance : ∀ s, holds s →
    (∃ v, step p n s = .done v ∧ step q n (move s) = .done v ∧
      ((move s).index < q.length → s.index < p.length)) ∨
    ∃ s', TransGen (system p n).Next s s' ∧ holds s' ∧
      (step q n (move s) = .next (move s') ∨ move s = move s' ∧ s.index < s'.index)

theorem Follows.exec_eq {p q : Program} {holds : State → Prop} {move : State → State}
    (h : Follows p q n holds move) : exec p n = some v ↔ exec q n = some v := by
  rw [exec_eq_some_iff, exec_eq_some_iff]
  have hsimulates : System.Simulates (system p n) (system q n) (fun s t => holds s ∧ t = move s)
      (fun s => p.length - s.index) := by
    rintro s t ⟨hs, rfl⟩
    rcases h.advance s hs with ⟨v, hp, hq, -⟩ | ⟨s', hsteps, hs', hq | ⟨hmove, hlt⟩⟩
    · exact .inl ⟨v, ends_of_done hp, ends_of_done hq⟩
    · exact .inr (.inl ⟨s', _, hsteps, .single (next_iff.mpr hq), hs', rfl⟩)
    · have hle := steps_index_le hsteps
      exact .inr (.inr ⟨s', hsteps, ⟨hs', hmove⟩, by dsimp only; omega⟩)
  exact hsimulates.ends_iff ⟨h.start.1, h.start.2.symm⟩

/-- Where a program follows another, it executes at most as many instructions. Each of them stands
for one or more of the other, so the induction is on the number of those. -/
theorem Follows.executes {p q : Program} {holds : State → Prop} {move : State → State} {k : Nat}
    (h : Follows p q n holds move) (hs : holds s) (hrun : Executes p n v k s) :
    ∃ j ≤ k, Executes q n v j (move s) := by
  induction k using Nat.strongRecOn generalizing s with
  | ind k ih =>
    rcases h.advance s hs with ⟨w, hp, hq, hindex⟩ | ⟨s', hsteps, hs', hq⟩
    · obtain ⟨rfl, hcount⟩ := hrun.of_done hp
      obtain ⟨j, hj, hrun', hlt⟩ := executes_of_done hq
      refine ⟨j, ?_, hrun'⟩
      rcases Nat.le_one_iff_eq_zero_or_eq_one.mp hj with rfl | rfl
      · exact Nat.zero_le k
      · exact Nat.le_of_eq (hcount (hindex (hlt rfl))).symm
    · obtain ⟨i, hi, hafter⟩ := hrun.after_steps hsteps
      obtain ⟨j, hj, hrun'⟩ := ih i hi hs' hafter
      rcases hq with hnext | ⟨hmove, -⟩
      · exact ⟨j + 1, by omega, .next hnext hrun'⟩
      · exact ⟨j, by omega, hmove ▸ hrun'⟩

end Machine

end PluralForms
