import PluralForms.Proofs.Elision
import PluralForms.Proofs.Forward
import PluralForms.Proofs.SelectionCompleteness
import PluralForms.Proofs.SelectionShape
import PluralForms.Proofs.TrimmingPasses

/-! The constants of programs. Each calculation and each test in the program of a text has the
constant that stands behind its operator in the text. The optimizer makes up no constant, and it
leaves something of each program of a selection. -/

namespace PluralForms

/-! ### Constants of a text -/

/-- Among the tokens, the constant of the instruction stands behind an operator for it. No division
is by zero. -/
def Instruction.Written (tokens : List Token) : Instruction → Prop
  | .arith op value =>
    [.arith op, .integer value] <:+: tokens ∧ ¬(op.divides ∧ value = 0)
  | .loadMod value => [.arith .mod, .integer value] <:+: tokens ∧ value ≠ 0
  | .test relation value => [.compare relation, .integer value] <:+: tokens
  | .load _ | .jump _ _ | .ret _ => True

theorem Instruction.Written.mono {tokens tokens' : List Token} {instruction : Instruction}
    (h : instruction.Written tokens) (hpart : tokens <:+: tokens') :
    instruction.Written tokens' := by
  cases instruction with
  | arith | loadMod => exact ⟨h.1.trans hpart, h.2⟩
  | test => exact h.trans hpart
  | load | jump | ret => trivial

/-- The constants of the program are written among the tokens. -/
def Program.Written (tokens : List Token) (program : Program) : Prop :=
  ∀ instruction ∈ program, instruction.Written tokens

namespace Program.Written

variable {tokens tokens' : List Token} {p q : Program} {instruction : Instruction}

theorem mono (h : p.Written tokens) (hpart : tokens <:+: tokens') : p.Written tokens' :=
  fun instruction hmem => (h instruction hmem).mono hpart

theorem nil : Program.Written tokens [] := List.forall_mem_nil _

theorem cons (hfirst : instruction.Written tokens) (h : p.Written tokens) :
    Program.Written tokens (instruction :: p) :=
  List.forall_mem_cons.mpr ⟨hfirst, h⟩

theorem append (h : p.Written tokens) (h' : q.Written tokens) :
    Program.Written tokens (p ++ q) :=
  List.forall_mem_append.mpr ⟨h, h'⟩

end Program.Written

namespace Selection

open Program

variable {tokens tokens' : List Token} {operand : Operand} {part : Part} {phrase : Phrase part}

/-- The constants of the code for the operand are written among the tokens, wherever it leaves
for. -/
def Operand.Written (tokens : List Token) : Operand → Prop
  | .literal _ => True
  | .chain links _ => links.code.Written tokens
  | .condition found => ∀ onTrue onFalse, (found.code onTrue onFalse).Written tokens
  | .choice deciding yes no =>
    (∀ onTrue onFalse, (deciding.code onTrue onFalse).Written tokens) ∧
      yes.code.Written tokens ∧ no.code.Written tokens

theorem Operand.Written.mono (h : operand.Written tokens) (hpart : tokens <:+: tokens') :
    operand.Written tokens' := by
  cases operand with
  | literal => trivial
  | chain => exact Program.Written.mono h hpart
  | condition => exact fun onTrue onFalse => (h onTrue onFalse).mono hpart
  | choice =>
    exact ⟨fun onTrue onFalse => (h.1 onTrue onFalse).mono hpart, h.2.1.mono hpart,
      h.2.2.mono hpart⟩

theorem Operand.Written.code {selection : Selection} (h : operand.Written tokens)
    (hselection : operand.selection? = some selection) : selection.code.Written tokens := by
  cases operand with
  | literal value =>
    obtain rfl := Option.some.inj hselection
    exact .cons trivial .nil
  | chain => cases hselection
  | condition found =>
    obtain rfl := Option.some.inj hselection
    exact (h 1 2).append (.cons trivial (.cons trivial (.cons trivial .nil)))
  | choice deciding yes no =>
    obtain rfl := Option.some.inj hselection
    exact (h.1 1 _).append (.cons trivial (h.2.1.append h.2.2))

theorem Operand.Written.program {selection : Selection} (h : operand.Written tokens)
    (hselection : operand.selection? = some selection) : selection.program.Written tokens := by
  have hcode := h.code hselection
  cases operand with
  | chain => cases hselection
  | condition found =>
    obtain rfl := Option.some.inj hselection
    exact h 0 0
  | literal | choice =>
    obtain rfl := Option.some.inj hselection
    exact hcode

theorem Operand.Fits.written (h : operand.Fits phrase) (hallowed : phrase.Allowed) :
    operand.Written phrase.tokens := by
  induction h with
  | count => exact .cons trivial .nil
  | integer => trivial
  | @parens operand inner _ ih =>
    have hpart : inner.tokens <:+: (Phrase.parens inner).tokens := ⟨[.opening], [.closing], rfl⟩
    cases operand <;> exact (ih hallowed).mono hpart
  | primary _ ih | arithmetic _ ih | operand _ ih | plain _ ih => exact ih hallowed
  | @operator links _ left op value _ ih =>
    have hlinks : Program.Written left.tokens links.code := ih hallowed.1.1
    have hcode : Chain.code (links ++ [(op, value)]) = links.code ++ [.arith op value] := by
      simp [Chain.code]
    rw [Operand.Written, hcode]
    exact (hlinks.mono (List.prefix_append ..).isInfix).append
      (.cons ⟨(List.suffix_append ..).isInfix, hallowed.2.2⟩ .nil)
  | @compare links _ left relation value _ ih =>
    have hlinks : Program.Written left.tokens links.code := ih hallowed.1
    exact fun _ _ => (hlinks.mono (List.prefix_append ..).isInfix).append
      (.cons (List.suffix_append ..).isInfix .nil)
  | @join connective first second left right _ _ ihLeft ihRight =>
    have hleft := (ihLeft hallowed.1.1).mono
      (List.prefix_append left.tokens (connective.token :: right.tokens)).isInfix
    have hright := (ihRight hallowed.2.1).mono
      ((List.suffix_cons connective.token right.tokens).trans
        (List.suffix_append left.tokens _)).isInfix
    cases connective <;>
      exact fun onTrue onFalse => (hleft _ _).append (.cons trivial (hright onTrue onFalse))
  | @choose _ _ _ _ _ condition yesPhrase noPhrase _ _ hyes _ hno ihCondition ihYes ihNo =>
    let behind := yesPhrase.tokens ++ .colon :: noPhrase.tokens
    have hbehind : behind <:+: condition.tokens ++ .question :: behind :=
      ((List.suffix_cons _ _).trans (List.suffix_append ..)).isInfix
    have hcondition := (ihCondition hallowed.1.1).mono
      (List.prefix_append condition.tokens (.question :: behind)).isInfix
    have hfirst := ((ihYes hallowed.2.1.1).code hyes).mono
      ((List.prefix_append _ (.colon :: noPhrase.tokens)).isInfix.trans hbehind)
    have hsecond := ((ihNo hallowed.2.2.1).code hno).mono
      (((List.suffix_cons _ _).trans (List.suffix_append ..)).isInfix.trans hbehind)
    exact ⟨hcondition, hfirst, hsecond⟩

theorem written_of_parse {text : List Char} {selection : Selection}
    (h : parse text = .ok selection) :
    ∃ tokens, Text.tokens? text = some tokens ∧ selection.program.Written tokens := by
  obtain ⟨phrase, htokens, hallowed, operand, hfits, hselection⟩ := parse_eq_ok_iff.mp h
  exact ⟨phrase.tokens, htokens, (hfits.written hallowed).program hselection⟩

end Selection

/-! ### Constants that the optimizer keeps -/

/-- The constant of the instruction, if it is calculated or compared with, is that of one of the
program that does the same. -/
def Instruction.DrawnFrom (p : Program) : Instruction → Prop
  | .arith op value => .arith op value ∈ p
  | .test relation value => .test relation value ∈ p
  | .loadMod value => .loadMod value ∈ p ∨ .arith .mod value ∈ p
  | .load _ | .jump _ _ | .ret _ => True

namespace Program

variable {p q r : Program} {removed : List Bool} {instruction : Instruction}

theorem drawnFrom_of_mem (h : instruction ∈ p) : instruction.DrawnFrom p := by
  cases instruction with
  | arith | test => exact h
  | loadMod => exact .inl h
  | load | jump | ret => trivial

theorem drawnFrom_aim (h : instruction ∈ p) (index target : Nat) :
    (instruction.aim index target).DrawnFrom p := by
  cases instruction with
  | jump => trivial
  | load | arith | loadMod | ret | test => exact drawnFrom_of_mem h

/-- The constants of the second program are those of the first. -/
def Supplies (p q : Program) : Prop := ∀ instruction ∈ q, instruction.DrawnFrom p

namespace Supplies

theorem refl (p : Program) : p.Supplies p := fun _ => drawnFrom_of_mem

theorem trans (hpq : p.Supplies q) (hqr : q.Supplies r) : p.Supplies r := by
  intro instruction hmem
  have hdrawn := hqr instruction hmem
  cases instruction with
  | arith | test => exact hpq _ hdrawn
  | loadMod =>
    rcases hdrawn with hload | hmod
    · exact hpq _ hload
    · exact .inr (hpq _ hmod)
  | load | jump | ret => trivial

end Supplies

/-- What is written of the first program is written of the second. -/
theorem Supplies.written {tokens : List Token} (h : p.Supplies q) (hwritten : p.Written tokens) :
    q.Written tokens := by
  intro instruction hmem
  have hdrawn := h instruction hmem
  cases instruction with
  | arith | test => exact hwritten _ hdrawn
  | loadMod value =>
    rcases hdrawn with hload | hmod
    · exact hwritten _ hload
    · obtain ⟨hpart, hzero⟩ := hwritten _ hmod
      exact ⟨hpart, fun heq => hzero ⟨rfl, heq⟩⟩
  | load | jump | ret => trivial

theorem supplies_remove (hlen : removed.length = p.length) : p.Supplies (p.remove removed) := by
  intro instruction hmem
  by_cases hjump : instruction.kind = .jump
  · cases instruction with
    | jump => trivial
    | load | arith | loadMod | ret | test => cases hjump
  · obtain ⟨j, hget⟩ := List.mem_iff_getElem?.mp hmem
    obtain ⟨i, -, -, hget'⟩ := exists_of_remove_getElem? hlen hget hjump
    exact drawnFrom_of_mem (List.mem_of_getElem? hget')

theorem supplies_fuseMods (p : Program) : p.Supplies p.fuseMods.1 := by
  rw [fuseMods_eq_remove]
  refine .trans (fun instruction hmem => ?_) (supplies_remove (removesAltering_fuseMarks p).length)
  obtain ⟨i, hget⟩ := List.mem_iff_getElem?.mp hmem
  cases hfusible : fusible? p.toArray (Analysis.of p) i with
  | none =>
    rw [fused_getElem?_of_none hfusible] at hget
    exact drawnFrom_of_mem (List.mem_of_getElem? hget)
  | some operand =>
    obtain ⟨unused, -, hmod, -⟩ := Machine.fusible?_eq_some hfusible
    rw [fused_getElem?_of_fusible hfusible] at hget
    obtain rfl := Option.some.inj hget
    exact .inr (List.mem_of_getElem? hmod)

theorem supplies_shortcut {index place : Nat} (_ : shortcut? p.toArray index = some place) :
    p.Supplies (p.modify index (Instruction.aim index place)) := by
  intro instruction hmem
  obtain ⟨i, hget⟩ := List.mem_iff_getElem?.mp hmem
  rw [List.getElem?_modify] at hget
  obtain ⟨found, hfound, rfl⟩ := Option.map_eq_some_iff.mp hget
  split
  · exact drawnFrom_aim (List.mem_of_getElem? hfound) index place
  · exact drawnFrom_of_mem (List.mem_of_getElem? hfound)

theorem supplies_elideLoads (p : Program) : p.Supplies p.elideLoads.1 := by
  intro instruction hmem
  obtain ⟨i, hget⟩ := List.mem_iff_getElem?.mp hmem
  simp only [elideLoads, List.getElem?_mapIdx] at hget
  obtain ⟨found, hfound, rfl⟩ := Option.map_eq_some_iff.mp hget
  have hfound' := List.mem_of_getElem? hfound
  split
  · exact drawnFrom_aim hfound' i _
  · exact drawnFrom_of_mem hfound'

/-! ### What the optimizer leaves -/

/-- In a tidy program the last instruction does not write the register. -/
theorem Shaped.exists_keeps (h : p.Shaped) (hne : p ≠ []) : ∃ i, p.Keeps i := by
  have hpos := List.length_pos_iff.mpr hne
  refine ⟨p.length - 1, (alters_or_keeps (by omega)).resolve_left fun halters => ?_⟩
  have := h.lt_of_alters halters
  omega

theorem RemovesAltering.remove_ne_nil (h : p.RemovesAltering removed) (hshaped : p.Shaped)
    (hne : p ≠ []) : p.remove removed ≠ [] := by
  obtain ⟨i, hkeeps⟩ := hshaped.exists_keeps hne
  exact List.ne_nil_of_length_pos (Nat.zero_lt_of_lt (h.keeps_remove hkeeps).lt)

/-- A tidy program becomes another one, which is not empty if the first is not. -/
def Lasts (p q : Program) : Prop := p.Tidy → q.Tidy ∧ (p ≠ [] → q ≠ [])

theorem Lasts.trans (hpq : p.Lasts q) (hqr : q.Lasts r) : p.Lasts r := by
  intro h
  obtain ⟨htidy, hne⟩ := hpq h
  obtain ⟨htidy', hne'⟩ := hqr htidy
  exact ⟨htidy', fun h => hne' (hne h)⟩

theorem Trims.lasts (h : p.Trims removed) (htidy : p.Tidy) :
    (p.remove removed).Tidy ∧ (p ≠ [] → p.remove removed ≠ []) :=
  ⟨h.tidy htidy, h.remove_ne_nil htidy.toShaped⟩

end Program

namespace Optimizer

open Program

theorem supplies_keptByPasses : KeptByPasses Program.Supplies where
  refl := .refl
  trans := .trans
  eliminatePrefixes p := by
    rw [eliminatePrefixes_eq]
    exact supplies_remove (length_marks _)
  eliminateLoads p := by
    rw [eliminateLoads_eq]
    exact supplies_remove (length_marks _)
  fuseMods := supplies_fuseMods
  collapseJumps p := Machine.collapseJumps_related .refl .trans supplies_shortcut p
  elideLoads := supplies_elideLoads
  removeLeadingLoad p := by
    rw [removeLeadingLoad_eq]
    exact supplies_remove (length_marks _)
  eliminateDead p := by
    simp only [eliminateDead, removeWhere_eq]
    exact supplies_remove (length_marks _)

theorem lasts_keptByPasses : KeptByPasses Program.Lasts where
  refl _ h := ⟨h, id⟩
  trans := .trans
  eliminatePrefixes p h := by
    rw [eliminatePrefixes_eq]
    exact (trims_prefixMarks h).lasts h
  eliminateLoads p h := by
    rw [eliminateLoads_eq]
    exact (trims_loadMarks h).lasts h
  fuseMods p h := ⟨tidy_fuseMods h, fun hne => (removesAltering_fuseMarks p).remove_ne_nil
    (shaped_fused h.toShaped)
    (List.ne_nil_of_length_pos (p.length_fused.symm ▸ List.length_pos_iff.mpr hne))⟩
  collapseJumps p h := by
    rw [collapseJumps_eq_self h.toShaped]
    exact ⟨h, id⟩
  elideLoads p h := ⟨tidy_elideLoads h, fun hne =>
    List.ne_nil_of_length_pos (p.length_elideLoads.symm ▸ List.length_pos_iff.mpr hne)⟩
  removeLeadingLoad p h := by
    rw [removeLeadingLoad_eq]
    exact (trims_leadingMarks h).lasts h
  eliminateDead p h := by
    obtain ⟨removed, htrims, heq, -⟩ := trims_dead h
    rw [heq]
    exact htrims.lasts h

theorem supplies_optimize (limit : Nat) (p : Program) : p.Supplies (optimize limit p).program :=
  supplies_keptByPasses.optimize limit p

theorem optimize_ne_nil (limit : Nat) (selection : Selection) :
    (optimize limit selection.program).program ≠ [] :=
  (lasts_keptByPasses.optimize limit selection.program selection.tidy_program).2
    selection.program_ne_nil

end Optimizer

end PluralForms
