import PluralForms.Proofs.Potential
import PluralForms.Proofs.Trimming

/-! The fusion of loads with remainders in tidy programs. A load and the remainder behind it make
one instruction that starts the register anew, and all paths leave the same states behind. Where all
jumps land behind instructions that leave the register as it is, each load with a remainder behind
it is fused. -/

namespace PluralForms

namespace Program

open Analysis Machine

variable {p q : Program} {removed : List Bool} {i j t : Nat} {kind : Kind}
  {state : RegisterState} {instruction : Instruction}

/-- Each jump lands behind an instruction that leaves the register as it is, so no jump leads into a
calculation. -/
def LandsApart (p : Program) : Prop :=
  ∀ {i t}, p.landing? i = some t → ∃ k, t = k + 1 ∧ p.Keeps k

/-- No remainder of the count takes two instructions. -/
def Compact (p : Program) : Prop :=
  ∀ {i unused operand}, p[i]? = some (.load unused) → p[i + 1]? ≠ some (.arith .mod operand)

theorem LandsApart.eq_false_of_alters (h : p.LandsApart) (halters : p.Alters i) :
    p.isTarget (i + 1) = false := by
  refine Bool.eq_false_iff.mpr fun htarget => ?_
  obtain ⟨j, hlands⟩ := isTarget_iff.mp htarget
  obtain ⟨k, hk, hkeeps⟩ := h hlands
  obtain rfl := Nat.succ.inj hk
  exact hkeeps.not_alters halters

theorem RemovesAltering.landsApart (h : p.RemovesAltering removed) (hshaped : p.Shaped)
    (hlands : p.LandsApart) : (p.remove removed).LandsApart := by
  intro j t hjump
  obtain ⟨i, t, -, -, hjump', rfl⟩ := exists_landing_of_remove h.length hshaped.valid hjump
  obtain ⟨k, rfl, hkeeps⟩ := hlands hjump'
  exact ⟨_, place_succ_of_kept (h.kept_of_keeps hkeeps), h.keeps_remove hkeeps⟩

theorem Trims.compact (h : p.Trims removed) (hcompact : p.Compact) :
    (p.remove removed).Compact := by
  intro j unused operand hload hmod
  obtain ⟨i, hkept, rfl, hload'⟩ := exists_of_remove_getElem? h.length hload nofun
  have hkept' := h.stays hkept (alters_iff.mpr ⟨_, hload', rfl⟩)
  obtain ⟨i', hkept'', hplace, hmod'⟩ := exists_of_remove_getElem? h.length hmod nofun
  rw [← place_succ_of_kept hkept] at hplace
  obtain rfl := eq_of_place_eq hkept'' hkept' hplace
  exact hcompact hload' hmod'

/-! ### The fused program -/

theorem kind?_fused (p : Program) (i : Nat) : p.fused.kind? i = p.kind? i := by
  rw [kind?, kind?]
  cases hf : fusible? p.toArray (Analysis.of p) i with
  | none => rw [fused_getElem?_of_none hf]
  | some operand =>
    obtain ⟨unused, hload, -, -⟩ := fusible?_eq_some hf
    rw [fused_getElem?_of_fusible hf, hload]
    rfl

/-- The shape of a program depends on the kinds of its instructions and on its landings. -/
theorem Shaped.congr (h : p.Shaped) (hvalid : q.invalidJump? = none) (hforward : q.isForward = true)
    (hlen : q.length = p.length) (hkind : q.kind? = p.kind?) (hlands : q.landing? = p.landing?) :
    q.Shaped where
  valid := hvalid
  forward := hforward
  alters := by
    simp only [Alters, hkind]
    exact h.alters
  jumps := by
    simp only [hkind]
    exact h.jumps
  passes := by
    simp only [Keeps, hkind, hlands]
    exact h.passes
  lands := by
    simp only [hkind, hlands]
    exact h.lands
  returns := by
    intro i
    simp only [isTarget_iff, Alters, hkind, hlands, hlen]
    simpa only [isTarget_iff, Alters] using h.returns (i := i)

theorem shaped_fused (h : p.Shaped) : p.fused.Shaped :=
  h.congr (invalidJump?_fused h.valid) (isForward_fused h.forward) p.length_fused
    (funext p.kind?_fused) (funext p.landing?_fused)

/-- The marks of the remainders that go. -/
def fuseMarks (p : Program) : List Bool :=
  p.fused.marks fun _ index => index != 0 &&
    (fusible? p.toArray (Analysis.of p) (index - 1)).isSome

theorem fuseMods_eq_remove (p : Program) : p.fuseMods.1 = p.fused.remove p.fuseMarks := rfl

theorem fuseMarks_iff :
    p.fuseMarks[i]? = some true ↔
      ∃ k operand, i = k + 1 ∧ fusible? p.toArray (Analysis.of p) k = some operand := by
  simp only [fuseMarks, marks_getElem?, Option.map_eq_some_iff, Bool.and_eq_true, bne_iff_ne,
    Option.isSome_iff_exists]
  constructor
  · rintro ⟨-, -, hne, operand, hfusible⟩
    exact ⟨i - 1, operand, by omega, hfusible⟩
  · rintro ⟨k, operand, rfl, hfusible⟩
    obtain ⟨unused, -, hmod, -⟩ := fusible?_eq_some hfusible
    have hlt := p.length_fused.symm ▸ (List.getElem?_eq_some_iff.mp hmod).1
    exact ⟨_, List.getElem?_eq_getElem hlt, Nat.succ_ne_zero k, operand, hfusible⟩

theorem removesAltering_fuseMarks (p : Program) : p.fused.RemovesAltering p.fuseMarks where
  length := length_marks _
  alters := by
    intro i hgone
    obtain ⟨k, operand, rfl, hfusible⟩ := fuseMarks_iff.mp hgone
    obtain ⟨unused, -, hmod, -⟩ := fusible?_eq_some hfusible
    exact ⟨.arith, (p.kind?_fused _).trans (kind?_of_getElem? hmod), rfl⟩

theorem not_fuseMarks_zero (p : Program) : p.fuseMarks[0]? ≠ some true := by
  intro hgone
  obtain ⟨k, operand, hk, -⟩ := fuseMarks_iff.mp hgone
  cases hk

/-- The instruction behind a remainder that goes stays. -/
theorem not_fuseMarks_of_fusible {operand : Int64}
    (h : fusible? p.toArray (Analysis.of p) i = some operand) :
    p.fuseMarks[i + 2]? ≠ some true := by
  intro hgone
  obtain ⟨k, operand', hk, hfusible⟩ := fuseMarks_iff.mp hgone
  obtain rfl : k = i + 1 := by omega
  obtain ⟨unused, hload, -, -⟩ := fusible?_eq_some hfusible
  obtain ⟨unused', -, hmod, -⟩ := fusible?_eq_some h
  rw [hload] at hmod
  cases hmod

theorem edge_of_fused (hf : fusible? p.toArray (Analysis.of p) i = none)
    (hedge : p.fused.Edge i t) : p.Edge i t := by
  cases hedge with
  | behind hget hret =>
    rw [fused_getElem?_of_none hf] at hget
    exact .behind hget hret
  | landing hlands => exact .landing (p.landing?_fused i ▸ hlands)

/-- Control comes to a remainder that goes from its load only. -/
theorem not_fuseMarks_of_edge (hf : fusible? p.toArray (Analysis.of p) i = none)
    (hedge : p.Edge i t) : p.fuseMarks[t]? ≠ some true := by
  intro hgone
  obtain ⟨k, operand, rfl, hfusible⟩ := fuseMarks_iff.mp hgone
  obtain ⟨-, -, -, hnot⟩ := fusible?_eq_some hfusible
  generalize htarget : k + 1 = target at hedge hnot
  cases hedge with
  | behind =>
    obtain rfl := Nat.succ.inj htarget
    rw [hf] at hfusible
    cases hfusible
  | landing hlands =>
    rw [isTarget_iff.mpr ⟨i, hlands⟩] at hnot
    cases hnot

/-- What a path leaves behind after the fusion, a path left behind before. -/
theorem exists_reaches_fuseMods (hvalid : p.invalidJump? = none)
    (hpath : p.fuseMods.1.Reaches j state) :
    ∃ i, p.fuseMarks[i]? ≠ some true ∧ place p.fuseMarks i = j ∧ p.Reaches i state := by
  rw [fuseMods_eq_remove] at hpath
  refine exists_reaches_of_remove p.removesAltering_fuseMarks.length (invalidJump?_fused hvalid)
    ⟨0, p.not_fuseMarks_zero, place_zero _, .start⟩
    (fun {i t state instruction} _ hpath hinst hedge => ?_) hpath
  cases hf : fusible? p.toArray (Analysis.of p) i with
  | some operand =>
    obtain ⟨unused, hload, hmod, -⟩ := fusible?_eq_some hf
    have hfused := fused_getElem?_of_fusible hf
    obtain rfl := Option.some.inj (hfused.symm.trans hinst)
    obtain rfl := Alters.eq_of_edge (alters_iff.mpr ⟨_, hfused, rfl⟩) hedge
    have hgone : p.fuseMarks[i + 1]? = some true := fuseMarks_iff.mpr ⟨i, operand, rfl, hf⟩
    exact ⟨i + 2, not_fuseMarks_of_fusible hf, place_succ_of_gone hgone,
      (hpath.alters hload rfl).alters hmod rfl⟩
  | none =>
    have hedge' := edge_of_fused hf hedge
    rw [fused_getElem?_of_none hf] at hinst
    exact ⟨t, not_fuseMarks_of_edge hf hedge', rfl, hpath.next hinst hedge'⟩

theorem tidy_fuseMods (h : p.Tidy) : p.fuseMods.1.Tidy := by
  have hremoves := p.removesAltering_fuseMarks
  have hshaped : p.fuseMods.1.Shaped := by
    rw [fuseMods_eq_remove]
    exact hremoves.shaped_remove (shaped_fused h.toShaped)
  refine ⟨hshaped, fun {j a b} htest ha hb => ?_⟩
  obtain ⟨i, hstays, rfl, hpath⟩ := exists_reaches_fuseMods h.valid ha
  obtain ⟨i', hstays', hplace, hpath'⟩ := exists_reaches_fuseMods h.valid hb
  rw [fuseMods_eq_remove] at htest
  obtain ⟨k, hkept, hplace', htest'⟩ := exists_of_kind?_remove hremoves.length htest
  obtain rfl := eq_of_place_eq_kept hkept hstays hplace'.symm
  obtain rfl := eq_of_place_eq_kept hkept hstays' hplace
  exact h.determined ((p.kind?_fused _).symm.trans htest') hpath hpath'

theorem fusible?_of_load {unused operand : Int64} (hload : p[i]? = some (.load unused))
    (hmod : p[i + 1]? = some (.arith .mod operand)) (htarget : p.isTarget (i + 1) = false) :
    fusible? p.toArray (Analysis.of p) i = some operand := by
  simp [fusible?, hload, hmod, isTarget_of, htarget]

theorem fuseMods_eq_self (h : p.Compact) : p.fuseMods = (p, 0) := by
  refine p.lowers_fuseMods.pair_eq ?_
  simp only [fuseMods]
  refine countWhere_eq_zero fun i instruction _ => ?_
  cases hf : fusible? p.toArray (Analysis.of p) i with
  | none => rfl
  | some operand =>
    obtain ⟨unused, hload, hmod, -⟩ := fusible?_eq_some hf
    exact absurd hmod (h hload)

/-- No jump keeps a load and a remainder apart, so all of them are fused. -/
theorem compact_fuseMods (hlands : p.LandsApart) : p.fuseMods.1.Compact := by
  have hremoves := p.removesAltering_fuseMarks
  rw [fuseMods_eq_remove]
  intro j unused operand hload hmod
  obtain ⟨i, hkept, rfl, hload'⟩ := exists_of_remove_getElem? hremoves.length hload nofun
  obtain ⟨i', hkept', hplace, hmod'⟩ := exists_of_remove_getElem? hremoves.length hmod nofun
  cases hf : fusible? p.toArray (Analysis.of p) i with
  | some operand =>
    rw [fused_getElem?_of_fusible hf] at hload'
    cases hload'
  | none =>
    rw [fused_getElem?_of_none hf] at hload'
    rw [← place_succ_of_kept hkept] at hplace
    have hstays : p.fuseMarks[i + 1]? ≠ some true := by
      intro hgone
      obtain ⟨k, operand, hk, hfusible⟩ := fuseMarks_iff.mp hgone
      obtain rfl := Nat.succ.inj hk
      rw [hf] at hfusible
      cases hfusible
    obtain rfl := eq_of_place_eq_kept hkept' hstays hplace.symm
    cases hf' : fusible? p.toArray (Analysis.of p) (i + 1) with
    | some operand =>
      rw [fused_getElem?_of_fusible hf'] at hmod'
      cases hmod'
    | none =>
      rw [fused_getElem?_of_none hf'] at hmod'
      have htarget := hlands.eq_false_of_alters (alters_iff.mpr ⟨_, hload', rfl⟩)
      rw [fusible?_of_load hload' hmod' htarget] at hf
      cases hf

end Program

end PluralForms
