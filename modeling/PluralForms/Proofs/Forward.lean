import PluralForms.Proofs.CheckedRun
import PluralForms.Proofs.FrontEnds

/-! Compiled programs go forward. Each jump in the code of a selection passes over one instruction
or more and lands in the program or at its end, so every run ends within as many steps as the
program has instructions. -/

namespace PluralForms

namespace Program

variable {first second code : Program} {past past' : Nat} {on : Bool}

/-- Each jump of the code passes over one instruction or more, and lands at most `past` places
behind the end of the code. -/
def JumpsWithin (code : Program) (past : Nat) : Prop :=
  ∀ (index : Nat) (on : Bool) (offset : Int), code[index]? = some (.jump on offset) →
    1 ≤ offset ∧ (index : Int) + 1 + offset ≤ (code.length + past : Nat)

theorem JumpsWithin.mono (h : code.JumpsWithin past) (hle : past ≤ past') :
    code.JumpsWithin past' := by
  intro index on offset hget
  obtain ⟨hforward, hplace⟩ := h index on offset hget
  exact ⟨hforward, by omega⟩

/-- The jumps of the first part may land in the second. -/
theorem JumpsWithin.append (hfirst : first.JumpsWithin (second.length + past))
    (hsecond : second.JumpsWithin past) : JumpsWithin (first ++ second) past := by
  intro index on offset hget
  rw [List.length_append]
  by_cases hindex : index < first.length
  · rw [List.getElem?_append_left hindex] at hget
    obtain ⟨hforward, hplace⟩ := hfirst index on offset hget
    exact ⟨hforward, by omega⟩
  · rw [List.getElem?_append_right (by omega)] at hget
    obtain ⟨hforward, hplace⟩ := hsecond _ on offset hget
    exact ⟨hforward, by omega⟩

theorem JumpsWithin.of_no_jump (h : ∀ instruction ∈ code, instruction.opcode.isJump = false) :
    code.JumpsWithin past := by
  intro index on offset hget
  have hjump := h _ (List.mem_of_getElem? hget)
  simp [Instruction.opcode, Opcode.isJump] at hjump

/-- A jump in front of a part goes past one instruction or more of it. -/
theorem JumpsWithin.jump (h : code.JumpsWithin past) (distance : Nat) (hpos : 1 ≤ distance)
    (hle : distance ≤ code.length + past) :
    JumpsWithin (.jump on distance :: code) past := by
  intro index on' offset hget
  rw [List.length_cons]
  cases index with
  | zero =>
    obtain ⟨-, rfl⟩ := Instruction.jump.inj (Option.some.inj hget)
    omega
  | succ index =>
    obtain ⟨hforward, hplace⟩ := h index on' offset hget
    exact ⟨hforward, by omega⟩

/-- Code whose jumps stay inside has no invalid jump, and none that goes backward. -/
theorem JumpsWithin.valid (h : code.JumpsWithin 0) :
    code.invalidJump? = none ∧ code.isForward = true := by
  constructor
  · rw [invalidJump?_eq_none_iff]
    intro index on offset hget
    obtain ⟨hforward, hplace⟩ := h index on offset hget
    have hlands : (Instruction.jump on offset).landing? code.length index =
        some (index + 1 + offset).toNat :=
      Instruction.landing?_eq_some_iff.mpr ⟨on, offset, rfl, by omega, by omega⟩
    rw [hlands]
    rfl
  · rw [isForward, List.all_eq_true]
    intro instruction hmem
    obtain ⟨index, hget⟩ := List.mem_iff_getElem?.mp hmem
    cases instruction with
    | jump on offset =>
      have hforward := (h index on offset hget).1
      simp only [decide_eq_true_eq]
      omega
    | _ => rfl

end Program

open Program (JumpsWithin)

theorem Chain.jumpsWithin_code (chain : Chain) (past : Nat) : JumpsWithin chain.code past := by
  refine .of_no_jump fun instruction hmem => ?_
  have halters := Chain.altersRegister_of_mem_code hmem
  cases instruction with
  | jump => simp [Instruction.altersRegister, Instruction.opcode, Opcode.altersRegister] at halters
  | _ => rfl

namespace Condition

theorem length_code_pos (condition : Condition) (onTrue onFalse : Nat) :
    0 < (condition.code onTrue onFalse).length := by
  cases condition <;> simp only [code, List.length_append, List.length_cons] <;> omega

theorem jumpsWithin_code (condition : Condition) {onTrue onFalse past : Nat}
    (htrue : onTrue ≤ past) (hfalse : onFalse ≤ past) :
    (condition.code onTrue onFalse).JumpsWithin past := by
  induction condition generalizing onTrue onFalse past with
  | compare chain comparison operand =>
    have htest : JumpsWithin [.test comparison operand] past :=
      .of_no_jump (by simp [Instruction.opcode, Opcode.isJump])
    exact (chain.jumpsWithin_code _).append htest
  | and left right ihLeft ihRight =>
    have hpos := right.length_code_pos onTrue onFalse
    have hright := ihRight htrue hfalse
    simp only [code]
    refine JumpsWithin.append ?_ (hright.jump _ (by omega) (by omega))
    exact ihLeft (by rw [List.length_cons]; omega) (by rw [List.length_cons]; omega)
  | or left right ihLeft ihRight =>
    have hpos := right.length_code_pos onTrue onFalse
    have hright := ihRight htrue hfalse
    simp only [code]
    refine JumpsWithin.append ?_ (hright.jump _ (by omega) (by omega))
    exact ihLeft (by rw [List.length_cons]; omega) (by rw [List.length_cons]; omega)

end Condition

namespace Selection

theorem length_code_pos (selection : Selection) : 0 < selection.code.length := by
  cases selection <;> simp only [code, List.length_append, List.length_cons] <;> omega

theorem jumpsWithin_code (selection : Selection) : selection.code.JumpsWithin 0 := by
  induction selection with
  | constant value => exact .of_no_jump (by simp [code, Instruction.opcode, Opcode.isJump])
  | test condition =>
    have hreturns : JumpsWithin [.ret 1, .ret 0] 0 :=
      .of_no_jump (by simp [Instruction.opcode, Opcode.isJump])
    have hjump : JumpsWithin [.jump false 1, .ret 1, .ret 0] 0 :=
      hreturns.jump 1 (by simp) (by simp)
    exact JumpsWithin.append (condition.jumpsWithin_code (by simp) (by simp)) hjump
  | choose condition yes no ihYes ihNo =>
    have hpos := yes.length_code_pos
    have hpos' := no.length_code_pos
    have hbranches : JumpsWithin (yes.code ++ no.code) 0 :=
      JumpsWithin.append (ihYes.mono (by omega)) ihNo
    have hlength : (yes.code ++ no.code).length = yes.code.length + no.code.length :=
      List.length_append
    simp only [code]
    refine JumpsWithin.append ?_ (hbranches.jump _ hpos (by omega))
    exact condition.jumpsWithin_code (by rw [List.length_cons]; omega)
      (by rw [List.length_cons]; omega)

theorem jumpsWithin_program (selection : Selection) : selection.program.JumpsWithin 0 := by
  cases selection with
  | test condition => exact condition.jumpsWithin_code (Nat.le_refl 0) (Nat.le_refl 0)
  | constant | choose => exact jumpsWithin_code _

theorem program_ne_nil (selection : Selection) : selection.program ≠ [] := by
  cases selection with
  | test condition => exact List.ne_nil_of_length_pos (condition.length_code_pos 0 0)
  | constant | choose => exact List.ne_nil_of_length_pos (length_code_pos _)

end Selection

/-- The program of a text has instructions. All its jumps land in the program or at its end and go
forward, past one instruction or more; and for each count a checked run that may take as many
steps as there are instructions ends with the program's result. -/
theorem run_compile {text : List Char} {program : Program}
    (h : Program.compile text = .ok program) :
    program ≠ [] ∧ program.isValid = true ∧ program.isForward = true ∧
      (∀ (index : Nat) (on : Bool) (offset : Int),
        program[index]? = some (.jump on offset) → 1 ≤ offset) ∧
      ∀ n limit, program.length ≤ limit →
        ∃ v, Machine.exec program n = some v ∧ Machine.run program limit n = .ok v := by
  obtain ⟨selection, -, rfl⟩ := compile_eq_ok h
  have hjumps := selection.jumpsWithin_program
  obtain ⟨hvalid, hforward⟩ := hjumps.valid
  refine ⟨selection.program_ne_nil, ?_, hforward, ?_, ?_⟩
  · rw [Program.isValid, hvalid]
    rfl
  · intro index on offset hget
    exact (hjumps index on offset hget).1
  · intro n limit hlimit
    exact Machine.run_of_forward hforward hvalid n hlimit

theorem run_compile_nested :
    Program.compile "(n == 1 || n%10 > 1) && n != 7 ? 0 : (n < 9 ? n > 2 : 3)".toList =
        .ok [.load 0, .test .eq 1, .jump true 4, .load 0, .arith .mod 10, .test .gt 1,
          .jump false 4, .load 0, .test .ne 7, .jump false 1, .ret 0, .load 0, .test .lt 9,
          .jump false 5, .load 0, .test .gt 2, .jump false 1, .ret 1, .ret 0, .ret 3] ∧
      ∃ v, Machine.exec [.load 0, .test .eq 1, .jump true 4, .load 0, .arith .mod 10, .test .gt 1,
            .jump false 4, .load 0, .test .ne 7, .jump false 1, .ret 0, .load 0, .test .lt 9,
            .jump false 5, .load 0, .test .gt 2, .jump false 1, .ret 1, .ret 0, .ret 3] 7 = some v ∧
        Machine.run [.load 0, .test .eq 1, .jump true 4, .load 0, .arith .mod 10, .test .gt 1,
            .jump false 4, .load 0, .test .ne 7, .jump false 1, .ret 0, .load 0, .test .lt 9,
            .jump false 5, .load 0, .test .gt 2, .jump false 1, .ret 1, .ret 0, .ret 3] 20 7 =
          .ok v :=
  have hcompile := by decide +kernel
  ⟨hcompile, (@run_compile
    "(n == 1 || n%10 > 1) && n != 7 ? 0 : (n < 9 ? n > 2 : 3)".toList _ hcompile).2.2.2.2
    7 20 (by decide)⟩

end PluralForms
