import PluralForms.Optimizer
import PluralForms.Proofs.Jumps

/-! The optimizer composes the passes: what each pass keeps between a program and its outcome, a
round keeps, and so do any number of rounds. It is sound for that reason, and makes no run
longer. -/

namespace PluralForms.Optimizer

open Program

/-- The relation composes, and each pass keeps it between a program and what it makes of it. -/
structure KeptByPasses (R : Program → Program → Prop) : Prop where
  refl : ∀ p, R p p
  trans : ∀ {p q r}, R p q → R q r → R p r
  eliminatePrefixes : ∀ p, R p (Program.eliminatePrefixes p).1
  eliminateLoads : ∀ p, R p (Program.eliminateLoads p).1
  fuseMods : ∀ p, R p (Program.fuseMods p).1
  collapseJumps : ∀ p, R p (Program.collapseJumps p).1
  elideLoads : ∀ p, R p (Program.elideLoads p).1
  removeLeadingLoad : ∀ p, R p (Program.removeLeadingLoad p).1
  eliminateDead : ∀ p, R p (Program.eliminateDead p).1

namespace KeptByPasses

variable {R : Program → Program → Prop}

theorem round (h : KeptByPasses R) (p : Program) (stats : Stats) :
    R p (Optimizer.round p stats).1 := by
  simp only [Optimizer.round]
  have prefixes := h.eliminatePrefixes p
  have loads := h.trans prefixes (h.eliminateLoads _)
  have mods := h.trans loads (h.fuseMods _)
  have collapsed := h.trans mods (h.collapseJumps _)
  have elided := h.trans collapsed (h.elideLoads _)
  have leading := h.trans elided (h.removeLeadingLoad _)
  exact h.trans leading (h.eliminateDead _)

theorem rounds (h : KeptByPasses R) (limit : Nat) (p : Program) (stats : Stats) :
    R p (Optimizer.rounds limit p stats).program := by
  induction limit generalizing p stats with
  | zero => exact h.refl p
  | succ limit ih =>
    have hround := h.round p stats
    generalize hr : Optimizer.round p stats = after at hround
    simp only [Optimizer.rounds, hr]
    split
    · exact hround
    · exact h.trans hround (ih after.1 after.2)

theorem optimize (h : KeptByPasses R) (limit : Nat) (p : Program) :
    R p (Optimizer.optimize limit p).program := by
  simp only [Optimizer.optimize]
  split
  · exact h.refl p
  · exact h.rounds limit p {}

end KeptByPasses

theorem improvedBy_keptByPasses : KeptByPasses Program.ImprovedBy where
  refl := .refl
  trans := .trans
  eliminatePrefixes := Machine.improvedBy_eliminatePrefixes
  eliminateLoads := Machine.improvedBy_eliminateLoads
  fuseMods := Machine.improvedBy_fuseMods
  collapseJumps := Machine.improvedBy_collapseJumps
  elideLoads := Machine.improvedBy_elideLoads
  removeLeadingLoad := Machine.improvedBy_removeLeadingLoad
  eliminateDead := Machine.improvedBy_eliminateDead

theorem improvedBy_optimize (limit : Nat) (p : Program) :
    p.ImprovedBy (optimize limit p).program :=
  improvedBy_keptByPasses.optimize limit p

theorem equivalent_optimize (limit : Nat) (p : Program) :
    p.Equivalent (optimize limit p).program :=
  (improvedBy_optimize limit p).equivalent

/-- Each pass alone, and the optimizer with any limit of rounds, yields a program that ends with
the same value for each count, and for the same counts never ends. The program may have jumps
backward and jumps that leave it. -/
theorem passes_sound (p : Program) :
    (p.Equivalent p.eliminatePrefixes.1 ∧ p.Equivalent p.eliminateLoads.1 ∧
      p.Equivalent p.fuseMods.1 ∧ p.Equivalent p.collapseJumps.1 ∧ p.Equivalent p.elideLoads.1 ∧
      p.Equivalent p.removeLeadingLoad.1 ∧ p.Equivalent p.eliminateDead.1) ∧
    ∀ limit, p.Equivalent (optimize limit p).program :=
  ⟨⟨Machine.equivalent_eliminatePrefixes p, Machine.equivalent_eliminateLoads p,
    Machine.equivalent_fuseMods p, Machine.equivalent_collapseJumps p,
    Machine.equivalent_elideLoads p, Machine.equivalent_removeLeadingLoad p,
    Machine.equivalent_eliminateDead p⟩, fun limit => equivalent_optimize limit p⟩

end PluralForms.Optimizer
