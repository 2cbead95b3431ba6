import PluralForms.Proofs.Caching
import PluralForms.Proofs.Constants
import PluralForms.Proofs.Decimal
import PluralForms.Proofs.Engine
import PluralForms.Proofs.Refusal
import PluralForms.Proofs.X86.Simulation

/-! Native code of formulas. The program of a text, and whatever the optimizer makes of it, has
native code unless a constant of the text is too wide for the processor or a branch does not reach
its target. The processor returns from the native code of a formula with the plural form of the
count. -/

namespace PluralForms

open Relation (ReflTransGen)

/-- Among the tokens, the constant stands behind a `+`, a `-` or a `*`, or behind a comparison. -/
def UsesAt (tokens : List Token) (value : Int64) : Prop :=
  (∃ op : Arithmetic, op.divides = false ∧ [.arith op, .integer value] <:+: tokens) ∨
    ∃ relation, [.compare relation, .integer value] <:+: tokens

namespace X86

open Native

variable {tokens : List Token} {instruction : Instruction} {error : Error}

/-- Constants of a text are not negative, so that a wide one lies above the range. -/
theorem usesAt_of_refuses (hwritten : instruction.Written tokens)
    (hnonneg : ∀ value, .integer value ∈ tokens → 0 ≤ value.toInt)
    (h : limits.Refuses instruction error) :
    ∃ value, error = .immediateOutOfRange value ∧ 0x7FFFFFFF < value.toInt ∧
      UsesAt tokens value := by
  have hmem {mark : Token} {value : Int64} (hpart : [mark, .integer value] <:+: tokens) :
      .integer value ∈ tokens := hpart.subset (by simp)
  have hwide {value : Int64} (hmem : .integer value ∈ tokens) (hwide : limits.wide value) :
      0x7FFFFFFF < value.toInt := by
    have := hnonneg value hmem
    simp only [limits] at hwide
    omega
  have hdivisor {value : Int64} (hmem : .integer value ∈ tokens) (hne : value ≠ 0) :
      ¬limits.divisor value := by
    rintro (hzero | rfl)
    · exact hne hzero
    · exact absurd (hnonneg _ hmem) (by decide)
  cases instruction with
  | arith op value =>
    obtain ⟨hpart, hzero⟩ := hwritten
    cases hdivides : op.divides with
    | true =>
      rw [Limits.Refuses, if_pos hdivides] at h
      exact absurd h.1 (hdivisor (hmem hpart) fun heq => hzero ⟨hdivides, heq⟩)
    | false =>
      rw [Limits.Refuses, if_neg (by simp [hdivides])] at h
      exact ⟨value, h.2, hwide (hmem hpart) h.1, .inl ⟨op, hdivides, hpart⟩⟩
  | loadMod value => exact absurd h.1 (hdivisor (hmem hwritten.1) hwritten.2)
  | test relation value => exact ⟨value, h.2, hwide (hmem hwritten) h.1, .inr ⟨relation, hwritten⟩⟩
  | load | jump | ret => exact h.elim

end X86

namespace Arm

open Native

theorem not_refuses {tokens : List Token} {instruction : Instruction} {error : Error}
    (hwritten : instruction.Written tokens) : ¬limits.Refuses instruction error := by
  intro h
  cases instruction with
  | arith op value =>
    cases hdivides : op.divides with
    | true =>
      rw [Limits.Refuses, if_pos hdivides] at h
      exact hwritten.2 ⟨hdivides, h.1⟩
    | false =>
      rw [Limits.Refuses, if_neg (by simp [hdivides])] at h
      exact h.1
  | loadMod value => exact hwritten.2 h.1
  | test relation value => exact h.1
  | load | jump | ret => exact h

end Arm

namespace Native

/-- For the program of a text and for what the optimizer makes of it, assembly fails only where a
branch does not reach its target, or where a constant of the text does not fit the immediate that it
would be. -/
theorem assemble_compiled_fails_only {text : List Char} {program : Program}
    (h : Program.compile text = .ok program) (limit : Nat) {q : Program}
    (hq : q = program ∨ q = (Optimizer.optimize limit program).program) :
    (∀ error, assemble X86.isa q = .error error →
      (∃ tokens value, Text.tokens? text = some tokens ∧ error = .immediateOutOfRange value ∧
        0x7FFFFFFF < value.toInt ∧ UsesAt tokens value) ∨
      (∃ displacement, error = .displacementOutOfRange displacement) ∧ ¬Encodable X86.isa q) ∧
    (∀ error, assemble Arm.isa q = .error error →
      (∃ displacement, error = .displacementOutOfRange displacement) ∧ ¬Encodable Arm.isa q) := by
  obtain ⟨selection, hparse, rfl⟩ := compile_eq_ok h
  obtain ⟨tokens, htokens, hwritten⟩ := Selection.written_of_parse hparse
  obtain ⟨hvalid, -⟩ := selection.jumpsWithin_program.valid
  obtain ⟨hne, hvalid', hwritten'⟩ :
      q ≠ [] ∧ q.invalidJump? = none ∧ Program.Written tokens q := by
    obtain rfl | rfl := hq
    · exact ⟨selection.program_ne_nil, hvalid, hwritten⟩
    · exact ⟨Optimizer.optimize_ne_nil limit selection,
        (Optimizer.keepsForm_optimize limit _).valid hvalid,
        (Optimizer.supplies_optimize limit _).written hwritten⟩
  constructor
  · intro error herror
    refine (PluralForms.X86.obeys_limits.refuses_of_assemble hne hvalid' herror).imp_left ?_
    rintro ⟨instruction, hmem, hrefuses⟩
    obtain ⟨value, hvalue, hwide, huses⟩ := PluralForms.X86.usesAt_of_refuses
      (hwritten' instruction hmem) (fun _ => Text.nonneg_of_mem_tokens? htokens) hrefuses
    exact ⟨tokens, value, htokens, hvalue, hwide, huses⟩
  · intro error herror
    refine (PluralForms.Arm.obeys_limits.refuses_of_assemble hne hvalid' herror).resolve_left ?_
    rintro ⟨instruction, hmem, hrefuses⟩
    exact PluralForms.Arm.not_refuses (hwritten' instruction hmem) hrefuses

/-- The optimizer leaves the wide constant for the comparison, and the one processor refuses it. -/
theorem assemble_compiled_fails_only_wide :
    Program.compile "n % 7 > 3000000000".toList =
        .ok [.load 0, .arith .mod 7, .test .gt 3000000000] ∧
      (Optimizer.optimize 8 [.load 0, .arith .mod 7, .test .gt 3000000000]).program =
        [.loadMod 7, .test .gt 3000000000] ∧
      assemble X86.isa [.loadMod 7, .test .gt 3000000000] =
        .error (.immediateOutOfRange 3000000000) ∧
      (∃ tokens, Text.tokens? "n % 7 > 3000000000".toList = some tokens ∧
        UsesAt tokens 3000000000) ∧
      (assemble Arm.isa [.loadMod 7, .test .gt 3000000000]).isOk = true := by
  have hcompile : Program.compile "n % 7 > 3000000000".toList =
      .ok [.load 0, .arith .mod 7, .test .gt 3000000000] := by decide +kernel
  have hoptimize : (Optimizer.optimize 8 [.load 0, .arith .mod 7, .test .gt 3000000000]).program =
      [.loadMod 7, .test .gt 3000000000] := by decide +kernel
  have herror : assemble X86.isa [.loadMod 7, .test .gt 3000000000] =
      .error (.immediateOutOfRange 3000000000) := by decide +kernel
  obtain ⟨hx86, harm⟩ := assemble_compiled_fails_only hcompile 8 (.inr hoptimize.symm)
  obtain ⟨tokens, value, htokens, hvalue, -, huses⟩ | ⟨⟨displacement, hfar⟩, -⟩ := hx86 _ herror
  · obtain rfl := Error.immediateOutOfRange.inj hvalue
    refine ⟨hcompile, hoptimize, herror, ⟨tokens, htokens, huses⟩, ?_⟩
    cases hcode : assemble Arm.isa [.loadMod 7, .test .gt 3000000000] with
    | ok code => rfl
    | error error => exact absurd (encodable_of_length (by decide)).2 (harm _ hcode).2
  · cases hfar

end Native

/-! ### Runs of native code -/

namespace Formula

/-- Native code of the formula is what the assembler makes of the program beside it. -/
def IsAssembled (formula : Formula) : Prop :=
  ∀ code program, formula = .native code program →
    Native.assemble Native.X86.isa program = .ok code

/-- The processor, entering native code of the formula with a count in `rdi`, returns what `eval`
yields for the count, and returns only if there is a value. On the way it stays in the code and
raises no exception. -/
def RunsNatively (formula : Formula) : Prop :=
  ∀ code program, formula = .native code program →
    ∀ (undefined : Nat → X86.Flags) (n : Int64) (t : X86.State),
      t.position = 0 → t.register .rdi = n.toBitVec →
        (∀ v, (X86.processor code undefined).Ends t v ↔ formula.eval n = some v) ∧
          ∀ t', ReflTransGen (X86.processor code undefined).Next t t' →
            X86.Proceeds code undefined t'

theorem IsAssembled.runsNatively {formula : Formula} (h : formula.IsAssembled) :
    formula.RunsNatively := by
  rintro code program rfl undefined n t hposition hcount
  exact (X86.emulates undefined).ends_iff (h code program rfl) hposition hcount

end Formula

namespace Engine

variable {config : Config} {arena arena' : Native.Arena} {program : Program} {formula : Formula}
  {code : List UInt8}

theorem assemble_of_compileNative (h : compileNative arena program = .ok (code, arena')) :
    Native.assemble Native.X86.isa program = .ok code := by
  have hmap := map_compileNative arena program
  rw [h] at hmap
  cases hassemble : Native.assemble Native.X86.isa program with
  | error error =>
    rw [hassemble] at hmap
    cases hmap
  | ok code' =>
    rw [hassemble] at hmap
    simp only [Except.map, Except.bind] at hmap
    split at hmap
    · cases hmap
    · exact congrArg _ (Except.ok.inj hmap).symm

theorem isAssembled_ofProgram (config : Config) (arena : Native.Arena) (program : Program) :
    (ofProgram config arena program).outcome.IsAssembled := by
  intro code source h
  simp only [ofProgram] at h
  split at h
  · cases h
  · split at h
    · split at h
      · next hcode =>
        cases h
        exact assemble_of_compileNative hcode
      · cases h
    · cases h

theorem isAssembled_ofExpression {expression : List Char}
    (h : (ofExpression config arena expression).outcome = .ok formula) : formula.IsAssembled := by
  obtain ⟨program, -, rfl⟩ | ⟨tree, -, rfl⟩ := ofExpression_eq_ok h
  · exact isAssembled_ofProgram config arena program
  · rintro code program ⟨⟩

theorem isAssembled_ofHeader {text : String} {plural : Plural}
    (h : (ofHeader config arena text).outcome = .ok plural) : plural.formula.IsAssembled := by
  obtain ⟨header, -, -, hconstant | ⟨family, hknown⟩ | hexpression⟩ := ofHeader_eq_ok h
  · rw [hconstant]
    rintro code program ⟨⟩
  · rw [hknown]
    rintro code program ⟨⟩
  · exact isAssembled_ofExpression hexpression

/-- Native code of the formula of a program does what the program does. -/
theorem runsNatively_ofProgram (config : Config) (arena : Native.Arena) (program : Program) :
    (ofProgram config arena program).outcome.RunsNatively :=
  (isAssembled_ofProgram config arena program).runsNatively

/-- Native code of the formula of an expression returns the plural form of each count. -/
theorem runsNatively_compileExpression (engine : Engine) {expression : String}
    (h : (engine.compileExpression expression).answer = .ok formula) :
    formula.RunsNatively ∧ formula.IsTotal :=
  ⟨(isAssembled_ofExpression h).runsNatively, isTotal_ofExpression h⟩

/-- Native code of the formula of a header returns the plural form of each count, whatever the
engine was asked before. -/
theorem runsNatively_make (config : Config) (environment : Environment) (calls : List Call)
    {text : String} {plural : Plural}
    (h : ((calls.foldl after (new config environment)).make text).answer = .ok plural) :
    plural.formula.RunsNatively ∧ plural.formula.IsTotal := by
  rw [answer_make_foldl] at h
  exact ⟨(isAssembled_ofHeader h).runsNatively, isTotal_ofHeader h⟩

example :
    ((new {} fun _ => none).compileExpression "n%7 > 3").answer.toOption.map Formula.strategy =
      some "native" := by
  decide +kernel

end Engine

end PluralForms
