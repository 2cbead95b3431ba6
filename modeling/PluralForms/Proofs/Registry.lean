import PluralForms.Proofs.Caching
import PluralForms.Proofs.Engine
import PluralForms.Proofs.Family
import PluralForms.Proofs.Positions

/-! Known formulas against the readers. A known formula has the value of every formula that the
engine makes of the same expression. The readers refuse an expression with the key of a family
exactly when a blank stands inside one of its tokens. -/

namespace PluralForms

open SyntaxTree (Derives)

variable {expression : List Char} {family : Family} {formula : Formula}

namespace Engine

/-- The formula of an expression has the value of the tree that its tokens derive. -/
theorem derives_of_ofExpression {config : Config} {arena : Native.Arena}
    (h : (ofExpression config arena expression).outcome = .ok formula) :
    ∃ tokens tree, Text.tokens? expression = some tokens ∧ Derives .conditional tokens tree [] ∧
      ∀ n, formula.eval n = some (tree.eval n) := by
  obtain ⟨program, hcompile, rfl⟩ | ⟨tree, hparse, rfl⟩ := ofExpression_eq_ok h
  · obtain ⟨selection, hparse, rfl⟩ := compile_eq_ok hcompile
    obtain ⟨tokens, tree, htokens, hderives, heval⟩ := Selection.derives_of_parse hparse
    refine ⟨tokens, tree, htokens, hderives, fun n => ?_⟩
    rw [eval_ofProgram config arena (Selection.exec_program selection n), heval]
  · obtain ⟨tokens, htokens, hderives⟩ := SyntaxTree.derives_of_parse hparse
    exact ⟨tokens, tree, htokens, hderives, fun n => rfl⟩

/-- What the engine makes of an expression has, for every count, the value of the known formula for
the expression. -/
theorem eval_of_lookup? (engine : Engine) {expression : String}
    (hformula : (engine.compileExpression expression).answer = .ok formula)
    (hfamily : Family.lookup? expression.toList = some family) (n : Int64) :
    formula.eval n = some (family.eval n) := by
  obtain ⟨tokens, tree, htokens, hderives, heval⟩ := derives_of_ofExpression hformula
  obtain ⟨selection, hmem, hparse⟩ := Family.parse_of_lookup? hfamily
  obtain ⟨tokens', tree', htokens', hderives', heval'⟩ := Selection.derives_of_parse hparse
  have hkeeps : Text.KeepsTokens expression.toList := hderives.keepsTokens htokens
  obtain rfl : tokens' = tokens :=
    Option.some.inj (htokens'.symm.trans (hkeeps.trans htokens))
  obtain ⟨rfl, -⟩ := hderives.unique hderives'
  rw [heval, heval', Family.eval_of_mem_selections hmem]

theorem eval_of_lookup?_romance :
    ∃ formula,
      ((new {} fun _ => none).compileExpression "( n !=\t1 )").answer = .ok formula ∧
        Family.lookup? "( n !=\t1 )".toList = some .romance ∧
        formula.eval (-3) = some (Family.romance.eval (-3)) := by
  have hok : ((new {} fun _ => none).compileExpression "( n !=\t1 )").answer.isOk = true := by
    decide +kernel
  have hfamily : Family.lookup? "( n !=\t1 )".toList = some .romance := by decide +kernel
  cases hanswer : ((new {} fun _ => none).compileExpression "( n !=\t1 )").answer with
  | ok formula => exact ⟨formula, rfl, hfamily, eval_of_lookup? _ hanswer hfamily (-3)⟩
  | error error => rw [hanswer] at hok; cases hok

end Engine

/-! ### Blanks inside tokens -/

theorem keepsTokens_of_compile {program : Program} (h : Program.compile expression = .ok program) :
    Text.KeepsTokens expression := by
  obtain ⟨selection, hparse, -⟩ := compile_eq_ok h
  obtain ⟨tokens, tree, htokens, hderives, -⟩ := Selection.derives_of_parse hparse
  exact hderives.keepsTokens htokens

theorem keepsTokens_of_parse {tree : SyntaxTree} (h : SyntaxTree.parse expression = .ok tree) :
    Text.KeepsTokens expression := by
  obtain ⟨tokens, htokens, hderives⟩ := SyntaxTree.derives_of_parse h
  exact hderives.keepsTokens htokens

/-- An expression with the key of a family is compiled if it keeps its tokens without its blanks. -/
theorem compile_of_lookup? (hfamily : Family.lookup? expression = some family)
    (hkeeps : Text.KeepsTokens expression) :
    ∃ program, Program.compile expression = .ok program := by
  obtain ⟨selection, -, hparse⟩ := Family.parse_of_lookup? hfamily
  have hparse' : Selection.parse expression = .ok selection :=
    Selection.parse_of_tokens?_eq hparse hkeeps.symm
  exact ⟨selection.emitted, by rw [Program.compile, hparse']; rfl⟩

namespace Engine

theorem ofExpression_eq_ok_iff (config : Config) (arena : Native.Arena)
    (hfamily : Family.lookup? expression = some family) :
    (∃ formula, (ofExpression config arena expression).outcome = .ok formula) ↔
      Text.KeepsTokens expression := by
  constructor
  · rintro ⟨formula, hformula⟩
    obtain ⟨tokens, tree, htokens, hderives, -⟩ := derives_of_ofExpression hformula
    exact hderives.keepsTokens htokens
  · intro hkeeps
    obtain ⟨program, hcompile⟩ := compile_of_lookup? hfamily hkeeps
    simp only [ofExpression, hcompile]
    exact ⟨_, rfl⟩

theorem makeUncached_eq_ok_iff (engine : Engine) {text : String} {nplurals : Nat}
    (hheader : Header.parse text.toList = .ok ⟨nplurals, expression⟩)
    (hfamily : Family.lookup? expression = some family) :
    (∃ plural, (engine.makeUncached text).answer = .ok plural) ↔
      nplurals = 1 ∨ engine.config.known = true ∨ Text.KeepsTokens expression := by
  rw [makeUncached]
  delta ofHeader
  rw [hheader]
  dsimp only
  by_cases hone : nplurals = 1
  · simp [hone]
  · rw [if_neg hone]
    cases hknown : engine.config.known with
    | true => simp [hfamily]
    | false =>
      rw [← ofExpression_eq_ok_iff engine.config engine.arena hfamily]
      cases (ofExpression engine.config engine.arena expression).outcome <;>
        simp [hone, Except.map]

/-- The same holds of the engine with its cache, after any calls. -/
theorem make_eq_ok_iff (config : Config) (environment : Environment) (calls : List Call)
    {text : String} {nplurals : Nat}
    (hheader : Header.parse text.toList = .ok ⟨nplurals, expression⟩)
    (hfamily : Family.lookup? expression = some family) :
    (∃ plural, ((calls.foldl after (new config environment)).make text).answer = .ok plural) ↔
      nplurals = 1 ∨ config.known = true ∨ Text.KeepsTokens expression := by
  have hnew := (new config environment).makeUncached_eq_ok_iff hheader hfamily
  rw [answer_makeUncached] at hnew
  rw [answer_make_foldl]
  exact hnew

end Engine

/-- The readers accept an expression with the key of a family exactly if it keeps its tokens without
its blanks. If it does, or if there is but one form, then the formula for a header with the
expression can be made without known formulas too. -/
theorem accepted_iff_of_lookup? (hfamily : Family.lookup? expression = some family) :
    (((∃ program, Program.compile expression = .ok program) ∨
        ∃ tree, SyntaxTree.parse expression = .ok tree) ↔ Text.KeepsTokens expression) ∧
      ∀ (engine : Engine) (text : String) (nplurals : Nat),
        Header.parse text.toList = .ok ⟨nplurals, expression⟩ →
          ((∃ plural, (engine.makeUncached text).answer = .ok plural) ↔
            nplurals = 1 ∨ engine.config.known = true ∨ Text.KeepsTokens expression) := by
  refine ⟨⟨?_, fun hkeeps => .inl (compile_of_lookup? hfamily hkeeps)⟩, ?_⟩
  · rintro (⟨program, hcompile⟩ | ⟨tree, hparse⟩)
    · exact keepsTokens_of_compile hcompile
    · exact keepsTokens_of_parse hparse
  · intro engine text nplurals hheader
    exact engine.makeUncached_eq_ok_iff hheader hfamily

theorem accepted_iff_of_lookup?_romance :
    Family.lookup? "n\t!= 1".toList = some .romance ∧
      (((∃ program, Program.compile "n\t!= 1".toList = .ok program) ∨
          ∃ tree, SyntaxTree.parse "n\t!= 1".toList = .ok tree) ↔
        Text.KeepsTokens "n\t!= 1".toList) ∧
      Header.parse "nplurals=2; plural=n\t!= 1;".toList = .ok ⟨2, "n\t!= 1".toList⟩ ∧
      ((∃ plural, ((Engine.new (Config.withoutKnown {}) fun _ => none).makeUncached
          "nplurals=2; plural=n\t!= 1;").answer = .ok plural) ↔
        2 = 1 ∨ (Config.withoutKnown {}).known = true ∨ Text.KeepsTokens "n\t!= 1".toList) :=
  have hfamily := by decide +kernel
  have hheader := by decide +kernel
  have haccepted := @accepted_iff_of_lookup? "n\t!= 1".toList .romance hfamily
  ⟨hfamily, haccepted.1, hheader,
    haccepted.2 (Engine.new (Config.withoutKnown {}) fun _ => none) _ 2 hheader⟩

/-- A blank inside `!=` hides it from the readers, but not from the registry. -/
theorem refused_of_blank :
    Family.lookup? "n ! = 1".toList = some .romance ∧
      (Program.compile "n ! = 1".toList).isOk = false ∧
      (SyntaxTree.parse "n ! = 1".toList).isOk = false ∧
      ((Engine.new {} fun _ => none).makeUncached
        "nplurals=2; plural=n ! = 1;").answer.isOk = true ∧
      ((Engine.new (Config.withoutKnown {}) fun _ => none).makeUncached
        "nplurals=2; plural=n ! = 1;").answer.isOk = false := by
  decide +kernel

end PluralForms
