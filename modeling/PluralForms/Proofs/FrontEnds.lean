import PluralForms.Proofs.Emission
import PluralForms.Proofs.Selection
import PluralForms.Proofs.SelectionReader
import PluralForms.Proofs.TreeReader

/-! The two readers of formulas give a text the same meaning. Its tokens have at most one tree, and
both readers follow the grammar, so the value of the tree is that of the selection, which its
program returns. -/

namespace PluralForms

variable {text : List Char} {selection : Selection} {tree : SyntaxTree} {program : Program}

/-- A selection has the value of the syntax tree of the same text. -/
theorem eval_eq_of_parse (hselection : Selection.parse text = .ok selection)
    (htree : SyntaxTree.parse text = .ok tree) (n : Int64) :
    selection.eval n = tree.eval n := by
  obtain ⟨tokens, tree', htokens, hderives, heval⟩ := Selection.derives_of_parse hselection
  obtain ⟨tokens', htokens', hderives'⟩ := SyntaxTree.derives_of_parse htree
  obtain rfl := Option.some.inj (htokens.symm.trans htokens')
  obtain ⟨rfl, -⟩ := hderives.unique hderives'
  exact (heval n).symm

theorem compile_eq_ok (h : Program.compile text = .ok program) :
    ∃ selection, Selection.parse text = .ok selection ∧ program = selection.program := by
  rw [Program.compile] at h
  cases hparse : Selection.parse text with
  | ok selection =>
    rw [hparse] at h
    exact ⟨selection, rfl, (Except.ok.inj h).symm.trans selection.emitted_eq_program⟩
  | error error =>
    rw [hparse] at h
    simp [Except.map] at h

/-- The program of a text ends for each count with the value of the syntax tree of the text. -/
theorem exec_compile_eq_eval (hprogram : Program.compile text = .ok program)
    (htree : SyntaxTree.parse text = .ok tree) (n : Int64) :
    Machine.exec program n = some (tree.eval n) := by
  obtain ⟨selection, hselection, rfl⟩ := compile_eq_ok hprogram
  rw [Selection.exec_program, eval_eq_of_parse hselection htree]

theorem exec_compile_eq_eval_baltic :
    Program.compile "n%10 == 1 || n > 5 ? 0 : 1".toList =
        .ok [.load 0, .arith .mod 10, .test .eq 1, .jump true 3, .load 0, .test .gt 5,
          .jump false 1, .ret 0, .ret 1] ∧
      SyntaxTree.parse "n%10 == 1 || n > 5 ? 0 : 1".toList =
        .ok (.choose (.binary .or
            (.binary (.compare .eq) (.binary (.arith .mod) .count (.literal 10)) (.literal 1))
            (.binary (.compare .gt) .count (.literal 5)))
          (.result (.literal 0)) (.result (.literal 1))) ∧
      Machine.exec [.load 0, .arith .mod 10, .test .eq 1, .jump true 3, .load 0, .test .gt 5,
          .jump false 1, .ret 0, .ret 1] 21 =
        some (SyntaxTree.eval 21 (.choose (.binary .or
            (.binary (.compare .eq) (.binary (.arith .mod) .count (.literal 10)) (.literal 1))
            (.binary (.compare .gt) .count (.literal 5)))
          (.result (.literal 0)) (.result (.literal 1)))) :=
  ⟨by decide +kernel, by decide +kernel,
    @exec_compile_eq_eval "n%10 == 1 || n > 5 ? 0 : 1".toList _ _
      (by decide +kernel) (by decide +kernel) 21⟩

end PluralForms
