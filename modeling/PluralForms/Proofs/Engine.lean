import PluralForms.Engine
import PluralForms.Proofs.FrontEnds
import PluralForms.Proofs.Optimizer

/-! The stages of an engine do not change its answers. The optimizer keeps the meaning of a program,
a program that only returns a constant has that value, and whether a program becomes native code or
not, the formula calculates what the program does. -/

namespace PluralForms

/-- The formulas have the same value for each count. -/
def Formula.Agrees (a b : Formula) : Prop :=
  ∀ n, ∃ v, a.eval n = some v ∧ b.eval n = some v

/-- The calculation ends for each count. -/
def Formula.IsTotal (formula : Formula) : Prop := ∀ n, ∃ index, formula.eval n = some index

theorem Formula.Agrees.isTotal {a b : Formula} (h : a.Agrees b) : a.IsTotal :=
  fun n => (h n).imp fun _ hvalues => hvalues.1

/-- The same number of plural forms, and formulas that agree. -/
def Plural.Agrees (a b : Plural) : Prop := a.nplurals = b.nplurals ∧ a.formula.Agrees b.formula

/-- Both attempts fail with the same error, or both succeed with results that agree. -/
inductive SameAnswer {ε α : Type} (agrees : α → α → Prop) : Except ε α → Except ε α → Prop
  | error (error : ε) : SameAnswer agrees (.error error) (.error error)
  | ok {a b : α} : agrees a b → SameAnswer agrees (.ok a) (.ok b)

theorem SameAnswer.agrees {ε α : Type} {agrees : α → α → Prop} {a b : α}
    (h : SameAnswer agrees (.ok a : Except ε α) (.ok b)) : agrees a b := by
  cases h with
  | ok hagrees => exact hagrees

theorem SameAnswer.map {ε α β : Type} {agrees : α → α → Prop} {agrees' : β → β → Prop}
    {a b : Except ε α} (h : SameAnswer agrees a b) {f g : α → β}
    (hmap : ∀ a b, agrees a b → agrees' (f a) (g b)) : SameAnswer agrees' (a.map f) (b.map g) := by
  cases h with
  | error error => exact .error error
  | ok hagrees => exact .ok (hmap _ _ hagrees)

namespace Engine

variable {first second : Config} {arena arena' : Native.Arena}

theorem equivalent_optimized (config : Config) (program : Program) :
    program.Equivalent (optimized config program).1 := by
  simp only [optimized]
  split
  · exact Optimizer.equivalent_optimize config.rounds program
  · exact .refl program

/-- The formula of a program has the value with which the program ends. -/
theorem eval_ofProgram (config : Config) (arena : Native.Arena) {program : Program} {n v : Int64}
    (h : Machine.exec program n = some v) :
    (ofProgram config arena program).outcome.eval n = some v := by
  have hoptimized := (equivalent_optimized config program n v).mp h
  simp only [ofProgram]
  split
  · next value =>
    have hret : Machine.exec [.ret value] n = some value :=
      Machine.exec_eq_some_iff.mpr (Machine.ends_of_done (Machine.step_ret rfl))
    exact hret.symm.trans h
  · split
    · split
      · exact hoptimized
      · exact hoptimized
    · exact hoptimized

theorem agrees_ofProgram (first second : Config) (arena arena' : Native.Arena) {program : Program}
    {text : List Char} (h : Program.compile text = .ok program) :
    (ofProgram first arena program).outcome.Agrees (ofProgram second arena' program).outcome := by
  obtain ⟨selection, -, rfl⟩ := compile_eq_ok h
  intro n
  have hexec := Selection.exec_program selection n
  exact ⟨_, eval_ofProgram first arena hexec, eval_ofProgram second arena' hexec⟩

theorem sameAnswer_ofExpression (first second : Config) (arena arena' : Native.Arena)
    (expression : List Char) :
    SameAnswer Formula.Agrees (ofExpression first arena expression).outcome
      (ofExpression second arena' expression).outcome := by
  simp only [ofExpression]
  cases hcompile : Program.compile expression with
  | ok program => exact .ok (agrees_ofProgram first second arena arena' hcompile)
  | error error =>
    dsimp only
    cases error.isFatal with
    | true => exact .error _
    | false =>
      cases SyntaxTree.parse expression with
      | ok tree => exact .ok fun n => ⟨_, rfl, rfl⟩
      | error second => exact .error _

theorem sameAnswer_ofHeader (hknown : first.known = second.known) (text : String) :
    SameAnswer Plural.Agrees (ofHeader first arena text).outcome
      (ofHeader second arena' text).outcome := by
  delta ofHeader
  rw [hknown]
  cases Header.parse text.toList with
  | error error => exact .error _
  | ok header =>
    dsimp only
    by_cases hone : header.nplurals = 1
    · rw [if_pos hone, if_pos hone]
      exact .ok ⟨rfl, fun n => ⟨0, rfl, rfl⟩⟩
    · rw [if_neg hone, if_neg hone]
      cases (if second.known then Family.lookup? header.expression else none) with
      | some family => exact .ok ⟨rfl, fun n => ⟨_, rfl, rfl⟩⟩
      | none =>
        exact (sameAnswer_ofExpression first second arena arena' header.expression).map
          fun _ _ hagrees => ⟨rfl, hagrees⟩

/-- The formula of an expression is that of its program, or its tree. -/
theorem ofExpression_eq_ok {config : Config} {expression : List Char} {formula : Formula}
    (h : (ofExpression config arena expression).outcome = .ok formula) :
    (∃ program, Program.compile expression = .ok program ∧
        formula = (ofProgram config arena program).outcome) ∨
      ∃ tree, SyntaxTree.parse expression = .ok tree ∧ formula = .tree tree := by
  simp only [ofExpression] at h
  split at h
  · next program hcompile => exact .inl ⟨program, hcompile, (Except.ok.inj h).symm⟩
  · split at h
    · cases h
    · split at h
      · next tree hparse => exact .inr ⟨tree, hparse, (Except.ok.inj h).symm⟩
      · cases h

/-- Where the formula of a header comes from: it is constant if there is but one form, it is known,
or it is made of the expression. -/
theorem ofHeader_eq_ok {config : Config} {text : String} {plural : Plural}
    (h : (ofHeader config arena text).outcome = .ok plural) :
    ∃ header, Header.parse text.toList = .ok header ∧ plural.nplurals = header.nplurals ∧
      (plural.formula = .constant 0 ∨ (∃ family, plural.formula = .known family) ∨
        (ofExpression config arena header.expression).outcome = .ok plural.formula) := by
  delta ofHeader at h
  split at h
  · cases h
  · next header hparse =>
    refine ⟨header, hparse, ?_⟩
    split at h
    · next hone =>
      obtain rfl := Except.ok.inj h
      exact ⟨hone.symm, .inl rfl⟩
    · split at h
      · next family _ =>
        obtain rfl := Except.ok.inj h
        exact ⟨rfl, .inr (.inl ⟨family, rfl⟩)⟩
      · dsimp only at h
        cases hformula : (ofExpression config arena header.expression).outcome with
        | error error =>
          rw [hformula] at h
          cases h
        | ok formula =>
          rw [hformula] at h
          obtain rfl := Except.ok.inj h
          exact ⟨rfl, .inr (.inr rfl)⟩

/-! ### Values for all counts -/

theorem isTotal_ofExpression {config : Config} {expression : List Char} {formula : Formula}
    (h : (ofExpression config arena expression).outcome = .ok formula) : formula.IsTotal := by
  have hsame := sameAnswer_ofExpression config config arena arena expression
  rw [h] at hsame
  exact hsame.agrees.isTotal

theorem isTotal_ofHeader {config : Config} {text : String} {plural : Plural}
    (h : (ofHeader config arena text).outcome = .ok plural) : plural.formula.IsTotal := by
  have hsame : SameAnswer Plural.Agrees (ofHeader config arena text).outcome
      (ofHeader config arena text).outcome := sameAnswer_ofHeader rfl text
  rw [h] at hsame
  exact hsame.agrees.2.isTotal

/-! ### Configurations -/

/-- Engines that both use known formulas or both do not give the same answer to each header,
whatever else their configurations ask for. -/
theorem sameAnswer_makeUncached (first second : Engine)
    (hknown : first.config.known = second.config.known) (text : String) :
    SameAnswer Plural.Agrees (first.makeUncached text).answer (second.makeUncached text).answer :=
  sameAnswer_ofHeader hknown text

theorem sameAnswer_makeUncached_interpreted :
    ({} : Config).known = Config.interpreted.withoutOptimizer.known ∧
      SameAnswer Plural.Agrees
        ((new {} fun _ => none).makeUncached "nplurals=2; plural=n%7 > 3;").answer
        ((new Config.interpreted.withoutOptimizer fun _ => none).makeUncached
          "nplurals=2; plural=n%7 > 3;").answer :=
  ⟨rfl, sameAnswer_makeUncached (new {} fun _ => none)
    (new Config.interpreted.withoutOptimizer fun _ => none) rfl "nplurals=2; plural=n%7 > 3;"⟩

end Engine

end PluralForms
