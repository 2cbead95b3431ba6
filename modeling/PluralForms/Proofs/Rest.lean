import PluralForms.Proofs.Convergence
import PluralForms.Proofs.Elision
import PluralForms.Proofs.SelectionShape
import PluralForms.Proofs.TrimmingPasses

/-! Compiled programs come to rest in three rounds. After the first round, jumps land on nothing
that the register holds already, so the second can only trim calculations to which no jump leads. It
does not change what paths leave behind where another calculation starts, so no part of one becomes
redundant, and the third round changes nothing. -/

namespace PluralForms

namespace Program

open Analysis Machine

variable {p q : Program} {removed : List Bool} {i j t length : Nat} {state : RegisterState}
  {instruction : Instruction} {run : Program}

/-- What the first round establishes and no later one undoes. -/
structure Prepared (p : Program) : Prop extends Tidy p where
  compact : p.Compact
  elided : p.Elided
  starts : ∀ unused, p[0]? ≠ some (.load unused)
  live : ∀ i < p.length, p.Reachable i

/-! ### The first round -/

theorem reaches_zero (h : p.Shaped) (hpath : p.Reaches 0 state) : state = .initial := by
  generalize ht : 0 = t at hpath
  cases hpath with
  | start => rfl
  | next _ _ hedge =>
    cases hedge with
    | behind => cases ht
    | landing hlands =>
      have := h.lt_of_landing hlands
      omega

theorem state?_zero (h : p.Shaped) (hpos : 0 < p.length) :
    (Analysis.of p).state? 0 = some .initial :=
  state?_eq_some_iff.mpr ⟨hpos, .start, fun _ hpath => .inr (reaches_zero h hpath).symm⟩

/-- A load at the start after a trim stood there before. -/
theorem Trims.load_zero (h : p.Trims removed) (hshaped : p.Shaped) {unused : Int64}
    (hget : (p.remove removed)[0]? = some (.load unused)) :
    removed[0]? = some false ∧ p[0]? = some (.load unused) := by
  obtain ⟨i, hkept, hplace, hload⟩ := exists_of_remove_getElem? h.length hget nofun
  cases i with
  | zero => exact ⟨hkept, hload⟩
  | succ k =>
    have hk : k < p.length := (Nat.lt_succ_self k).trans (List.getElem?_eq_some_iff.mp hload).1
    by_cases hgone : removed[k]? = some true
    · exact absurd (kind?_of_load ⟨unused, hload⟩) (hshaped.ne_reset (h.alters hgone))
    · rw [place_succ_of_kept (kept_of_not_gone h.length hk hgone)] at hplace
      cases hplace

theorem Trims.starts (h : p.Trims removed) (hshaped : p.Shaped)
    (hstarts : ∀ unused, p[0]? ≠ some (.load unused)) (unused : Int64) :
    (p.remove removed)[0]? ≠ some (.load unused) :=
  fun hget => hstarts unused (h.load_zero hshaped hget).2

theorem starts_removeLeadingLoad (h : p.Tidy) (unused : Int64) :
    p.removeLeadingLoad.1[0]? ≠ some (.load unused) := by
  rw [removeLeadingLoad_eq]
  intro hget
  obtain ⟨hkept, hload⟩ := (trims_leadingMarks h).load_zero h.toShaped hget
  have hinitial := state?_zero h.toShaped (List.getElem?_eq_some_iff.mp hload).1
  rw [leadingMarks_iff.mpr ⟨rfl, ⟨unused, hload⟩, hinitial⟩] at hkept
  cases hkept

/-- The removal of the load at the start and of dead code leaves the landings in the program. -/
theorem prepared_of_elided (h : p.Tidy) (hcompact : p.Compact) (helided : p.Elided) :
    p.removeLeadingLoad.1.eliminateDead.1.Prepared := by
  have hstarts := starts_removeLeadingLoad h
  rw [removeLeadingLoad_eq] at hstarts ⊢
  have hleading := trims_leadingMarks h
  have htidy := hleading.tidy h
  have helided' : (p.remove p.leadingMarks).Elided := by
    refine hleading.elided h helided fun {i t} hlands hgone => ?_
    have hlt := h.lt_of_landing hlands
    obtain ⟨rfl, -⟩ := leadingMarks_iff.mp hgone
    omega
  obtain ⟨removed, hdead, heq, hunreachable⟩ := trims_dead htidy
  have hlive := fun j => reachable_eliminateDead (p := p.remove p.leadingMarks) (j := j)
  rw [heq] at hlive ⊢
  refine ⟨hdead.tidy htidy, hdead.compact (hleading.compact hcompact),
    hdead.elided htidy helided' fun {i t} hlands hgone => hunreachable t hgone ?_,
    hdead.starts htidy.toShaped hstarts, hlive⟩
  exact .tail (htidy.reachable (keeps_of_landing hlands)) (.landing hlands)

theorem prepared_round (h : p.Tidy) (hapart : p.LandsApart) (stats : Optimizer.Stats) :
    (Optimizer.round p stats).1.Prepared := by
  simp only [Optimizer.round]
  rw [eliminatePrefixes_eq]
  have hprefixes := trims_prefixMarks h
  have tidy₁ := hprefixes.tidy h
  have apart₁ : (p.remove p.prefixMarks).LandsApart := hprefixes.landsApart h.toShaped hapart
  generalize p.remove p.prefixMarks = p₁ at tidy₁ apart₁ ⊢
  rw [eliminateLoads_eq]
  have hloads := trims_loadMarks tidy₁
  have tidy₂ := hloads.tidy tidy₁
  have apart₂ : (p₁.remove p₁.loadMarks).LandsApart := hloads.landsApart tidy₁.toShaped apart₁
  generalize p₁.remove p₁.loadMarks = p₂ at tidy₂ apart₂ ⊢
  have tidy₃ := tidy_fuseMods tidy₂
  have compact₃ : p₂.fuseMods.1.Compact := compact_fuseMods apart₂
  generalize p₂.fuseMods.1 = p₃ at tidy₃ compact₃ ⊢
  rw [collapseJumps_eq_self tidy₃.toShaped]
  exact prepared_of_elided (tidy_elideLoads tidy₃) (compact_elideLoads compact₃)
    (elided_elideLoads tidy₃)

/-! ### The second round -/

/-- No jump lands where the register holds already what a calculation begins with. -/
theorem Prepared.not_landing {known : RegisterState} (h : p.Prepared)
    (hstate : (Analysis.of p).state? t = some known) (hrun : run <+: p.drop t)
    (halters : ∀ instruction ∈ run, instruction.altersRegister = true)
    (hlength : known.redundantLength? run = some length) : p.landing? i ≠ some t := by
  intro hlands
  have hkeeps := keeps_of_landing hlands
  obtain ⟨state, hpath⟩ := reachable_iff_reaches.mp (h.reachable hkeeps)
  obtain ⟨on, offset, hget, -⟩ := landing?_eq_some_iff.mp hlands
  have hpath' : p.Reaches t state := hpath.next hget (.landing hlands)
  obtain rfl := hpath'.eq_of_state? hstate (RegisterState.isKnown_of_redundantLength? hlength)
  obtain ⟨rest, hrest⟩ := hrun
  have hcalculation : p.calculation t = run ++ rest.takeWhile (·.altersRegister) := by
    rw [calculation, ← hrest, List.takeWhile_append_of_pos halters]
  have hnone := h.elided hlands hpath
  rw [hcalculation] at hnone
  exact RegisterState.redundantLength?_append_ne_none hlength hnone

theorem Prepared.landing_prefixMarks (h : p.Prepared) (hlands : p.landing? i = some t) :
    p.prefixMarks[t]? ≠ some true := by
  intro hgone
  obtain ⟨start, length, hcut, hle, hlt⟩ := prefixMarks_iff.mp hgone
  rcases Nat.lt_or_eq_of_le hle with hbehind | rfl
  · have hnot := (hcut.getElem? hle hlt).2 hbehind
    rw [isTarget_iff.mpr ⟨i, hlands⟩] at hnot
    cases hnot
  · obtain ⟨known, run, hknown, hlength, hrun, halters, -⟩ := hcut.spec
    exact h.not_landing hknown hrun halters hlength hlands

theorem Prepared.landing_loadMarks (h : p.Prepared) (hlands : p.landing? i = some t) :
    p.loadMarks[t]? ≠ some true := by
  intro hgone
  obtain ⟨-, ⟨unused, hload⟩, hinitial⟩ := loadMarks_iff.mp hgone
  obtain ⟨ht, hget⟩ := List.getElem?_eq_some_iff.mp hload
  have hlength : RegisterState.initial.redundantLength? [.load unused] = some 1 := rfl
  refine h.not_landing hinitial ?_ (fun _ hmem => ?_) hlength hlands
  · rw [List.drop_eq_getElem_cons ht, hget]
    exact List.prefix_append [_] _
  · rw [List.mem_singleton.mp hmem]
    rfl

/-- A trim that takes no landing keeps what the first round established. -/
theorem Prepared.remove (h : p.Prepared) (htrims : p.Trims removed)
    (hstay : ∀ {i t}, p.landing? i = some t → removed[t]? ≠ some true) :
    (p.remove removed).Prepared where
  toTidy := htrims.tidy h.toTidy
  compact := htrims.compact h.compact
  elided := htrims.elided h.toTidy h.elided hstay
  starts := htrims.starts h.toShaped h.starts
  live := by
    intro j hj
    rw [length_remove htrims.length] at hj
    obtain ⟨i, hkept, rfl⟩ := exists_kept hj
    have hi : i < p.length := htrims.length ▸ (List.getElem?_eq_some_iff.mp hkept).1
    refine (h.live i hi).remove htrims.length fun k t hgone _ hedge => ?_
    rw [(htrims.alters hgone).eq_of_edge hedge, place_succ_of_gone hgone]

theorem mergesTo_congr (hpaths : ∀ state, q.Reaches j state ↔ p.Reaches i state) :
    q.MergesTo j state ↔ p.MergesTo i state := by
  cases state <;> simp only [MergesTo, Justifies, hpaths]

/-- Where a calculation starts the register anew, the analysis knows what it knew before. -/
theorem Trims.state?_remove (htrims : p.Trims removed) (h : p.Tidy)
    (hkept : removed[t]? = some false) (hreset : p.kind? t = some .reset) :
    (Analysis.of (p.remove removed)).state? (place removed t) = (Analysis.of p).state? t := by
  have hlt := lt_of_kind? hreset
  have hlt' : place removed t < (p.remove removed).length :=
    length_remove htrims.length ▸ place_lt_of_kept hkept hlt
  refine Option.ext fun state => ?_
  rw [state?_eq_some_iff, state?_eq_some_iff, mergesTo_congr fun state =>
    htrims.reaches_iff_of_reset h hkept hreset]
  simp only [hlt, hlt', true_and]

theorem Trims.isTarget_remove_of_kept (htrims : p.Trims removed) (h : p.Shaped)
    (hstay : ∀ {i t}, p.landing? i = some t → removed[t]? ≠ some true)
    (hkept : removed[t]? = some false) :
    (p.remove removed).isTarget (place removed t) = p.isTarget t := by
  rw [Bool.eq_iff_iff]
  refine ⟨fun htarget => ?_, htrims.isTarget_remove⟩
  obtain ⟨j, hlands⟩ := isTarget_iff.mp htarget
  obtain ⟨i, t', -, -, hlands', hplace⟩ := exists_landing_of_remove htrims.length h.valid hlands
  obtain rfl := eq_of_place_eq_kept hkept (hstay hlands') hplace
  exact isTarget_iff.mpr ⟨i, hlands'⟩

theorem Trims.prefixLength?_remove (htrims : p.Trims removed) (h : p.Tidy)
    (hstay : ∀ {i t}, p.landing? i = some t → removed[t]? ≠ some true)
    (hkept : removed[t]? = some false) (hreset : p.kind? t = some .reset) (first : Instruction) :
    prefixLength? (Analysis.of (p.remove removed)) (place removed t) first
        ((p.remove removed).drop (place removed t + 1)) =
      prefixLength? (Analysis.of p) t first (p.drop (t + 1)) := by
  have hnext : removed[t + 1]? ≠ some true := by
    rw [htrims.stays hkept ⟨.reset, hreset, rfl⟩]
    nofun
  have hrun : registerRun (Analysis.of (p.remove removed)) (place removed (t + 1))
      ((p.remove removed).drop (place removed (t + 1))) =
        registerRun (Analysis.of p) (t + 1) (p.drop (t + 1)) := by
    refine htrims.registerRun_remove (fun i hkept => ?_) hnext
    rw [isTarget_of, isTarget_of]
    exact htrims.isTarget_remove_of_kept h.toShaped hstay hkept
  rw [place_succ_of_kept hkept] at hrun
  rw [prefixLength?, prefixLength?, htrims.state?_remove h hkept hreset, hrun]

/-- No part of a calculation becomes redundant by a trim that takes no landing. -/
theorem Trims.cut_of_remove (htrims : p.Trims removed) (h : p.Tidy)
    (hstay : ∀ {i t}, p.landing? i = some t → removed[t]? ≠ some true)
    (hcut : Cut (p.remove removed) j length) :
    ∃ t, removed[t]? = some false ∧ Cut p t length := by
  obtain ⟨t, hkept, rfl, hreset⟩ :=
    exists_of_kind?_remove htrims.length ((htrims.tidy h).reset_of_cut hcut)
  obtain ⟨first, rest, hdrop, hwrites, hlength⟩ := hcut.redundant
  obtain ⟨instruction, hget, hkind⟩ := kind?_eq_some_iff.mp hreset
  have hget' := remove_getElem?_of_not_jump htrims.length hkept hget (hkind ▸ nofun)
  obtain ⟨hlt', hfirst⟩ := List.getElem?_eq_some_iff.mp hget'
  rw [List.drop_eq_getElem_cons hlt', hfirst] at hdrop
  obtain ⟨rfl, rfl⟩ := List.cons.inj hdrop
  obtain ⟨hlt, hfirst⟩ := List.getElem?_eq_some_iff.mp hget
  refine ⟨t, hkept, fun i hi => ?_, instruction, p.drop (t + 1), ?_, hwrites, ?_⟩
  · subst hi
    exact .inr (keeps_iff.mp ((alters_or_keeps (Nat.lt_of_succ_lt hlt)).resolve_left
      fun halters => h.ne_reset halters hreset))
  · rw [List.drop_eq_getElem_cons hlt, hfirst]
  · rw [← htrims.prefixLength?_remove h hstay hkept hreset]
    exact hlength

/-! ### Rest -/

/-- Where no part of a calculation is redundant, and no load, nothing is left to do. -/
theorem Prepared.atRest (h : p.Prepared) (hcut : ∀ start length, ¬Cut p start length)
    (hload : ∀ i : Nat, p.loadMarks[i]? ≠ some true) : Optimizer.AtRest p where
  eliminatePrefixes := eliminatePrefixes_eq_self hcut
  eliminateLoads := eliminateLoads_eq_self hload
  fuseMods := fuseMods_eq_self h.compact
  collapseJumps := collapseJumps_eq_self h.toShaped
  elideLoads := elideLoads_eq_self h.toShaped h.elided
  removeLeadingLoad := removeLeadingLoad_eq_self h.starts
  eliminateDead := eliminateDead_eq_self h.toShaped h.live

/-- The second round trims what has become redundant, and comes to rest. -/
theorem Prepared.atRest_round (h : p.Prepared) (stats : Optimizer.Stats) :
    Optimizer.AtRest (Optimizer.round p stats).1 := by
  have hprefixes := trims_prefixMarks h.toTidy
  have hstay : ∀ {i t}, p.landing? i = some t → p.prefixMarks[t]? ≠ some true :=
    fun hlands => h.landing_prefixMarks hlands
  have h₁ := h.remove hprefixes hstay
  -- All redundant parts are gone after the first pass, and no part becomes redundant.
  have hcut₁ : ∀ start length, ¬Cut (p.remove p.prefixMarks) start length := by
    intro start length hcut
    obtain ⟨t, hkept, hcut'⟩ := hprefixes.cut_of_remove h.toTidy hstay hcut
    obtain ⟨state, run, -, hlength, -⟩ := hcut'.spec
    have hpos := RegisterState.redundantLength?_pos hlength
    rw [prefixMarks_iff.mpr ⟨t, length, hcut', le_rfl, by omega⟩] at hkept
    cases hkept
  simp only [Optimizer.round]
  rw [eliminatePrefixes_eq]
  generalize p.remove p.prefixMarks = p₁ at h₁ hcut₁ ⊢
  have hloads := trims_loadMarks h₁.toTidy
  have hstay₁ : ∀ {i t}, p₁.landing? i = some t → p₁.loadMarks[t]? ≠ some true :=
    fun hlands => h₁.landing_loadMarks hlands
  have hrest : Optimizer.AtRest (p₁.remove p₁.loadMarks) := by
    refine (h₁.remove hloads hstay₁).atRest (fun start length hcut => ?_) fun j hgone => ?_
    · obtain ⟨t, -, hcut'⟩ := hloads.cut_of_remove h₁.toTidy hstay₁ hcut
      exact hcut₁ t length hcut'
    · obtain ⟨hne, ⟨unused, hget⟩, hinitial⟩ := loadMarks_iff.mp hgone
      obtain ⟨i, hkept, rfl, hget'⟩ := exists_of_remove_getElem? hloads.length hget (by rintro ⟨⟩)
      rw [hloads.state?_remove h₁.toTidy hkept (kind?_of_load ⟨unused, hget'⟩)] at hinitial
      have hne' : i ≠ 0 := by
        rintro rfl
        exact hne (place_zero _)
      rw [loadMarks_iff.mpr ⟨hne', ⟨unused, hget'⟩, hinitial⟩] at hkept
      cases hkept
  rw [eliminateLoads_eq]
  simp only [hrest.fuseMods, hrest.collapseJumps, hrest.elideLoads, hrest.removeLeadingLoad,
    hrest.eliminateDead]
  exact hrest

end Program

namespace Optimizer

/-- The first round prepares the program of a selection, the second brings it to rest, and the third
finds it so. -/
theorem settles_program (selection : Selection) (left : Nat) :
    Settles (left + 3) 3 selection.program :=
  .of_round fun stats => .of_round fun stats' => settles_of_atRest
    ((Program.prepared_round selection.tidy_program selection.landsApart_program stats).atRest_round
      stats') left

theorem optimize_of_atRest {p : Program} (h : AtRest p) (hvalid : p.invalidJump? = none)
    (left : Nat) :
    optimize (left + 1) p = ⟨p, { rounds := 1 }, [.round 1 0 p.length]⟩ := by
  simp only [optimize, hvalid, rounds_of_atRest h, Nat.sub_self, Nat.zero_add]

/-- On the program of a text, the optimizer stops after three rounds at the latest, because the last
one changed nothing. No pass changes what it yields, so to optimize that again yields the same
program, with no change counted. -/
theorem optimize_compile {text : List Char} {program : Program}
    (h : Program.compile text = .ok program) :
    (optimize defaultRounds program).Converged ∧
      (optimize defaultRounds program).stats.rounds ≤ 3 ∧
      AtRest (optimize defaultRounds program).program ∧
      optimize defaultRounds (optimize defaultRounds program).program =
        ⟨(optimize defaultRounds program).program, { rounds := 1 },
          [.round 1 0 (optimize defaultRounds program).program.length]⟩ := by
  obtain ⟨selection, -, rfl⟩ := compile_eq_ok h
  obtain ⟨hvalid, -⟩ := selection.jumpsWithin_program.valid
  have hvalid' := (keepsForm_optimize defaultRounds selection.program).valid hvalid
  have hsettles : Settles defaultRounds 3 selection.program := settles_program selection 5
  obtain ⟨hrest, ⟨number, size, hlast⟩, hrounds⟩ := hsettles {}
  have hoptimize : optimize defaultRounds selection.program =
      { rounds defaultRounds selection.program {} with
        stats := { (rounds defaultRounds selection.program {}).stats with
          removed := selection.program.length -
            (rounds defaultRounds selection.program {}).program.length } } := by
    simp only [optimize, hvalid]
  generalize rounds defaultRounds selection.program {} = outcome at hrest hlast hrounds hoptimize
  rw [hoptimize] at hvalid' ⊢
  exact ⟨⟨number, size, hlast⟩, hrounds.trans_eq (Nat.zero_add 3), hrest,
    optimize_of_atRest hrest hvalid' 7⟩

/-- The jump past the second product leaves its load to the one path on which the register holds the
count, so that a second round removes it. -/
theorem optimize_compile_product :
    Program.compile "n*2 == 4 && n == 2 || n*2 == 6".toList =
        .ok [.load 0, .arith .mul 2, .test .eq 4, .jump false 3, .load 0, .test .eq 2,
          .jump true 3, .load 0, .arith .mul 2, .test .eq 6] ∧
      (optimize defaultRounds [.load 0, .arith .mul 2, .test .eq 4, .jump false 3, .load 0,
          .test .eq 2, .jump true 3, .load 0, .arith .mul 2, .test .eq 6]).stats.rounds = 3 ∧
      optimize defaultRounds (optimize defaultRounds [.load 0, .arith .mul 2, .test .eq 4,
          .jump false 3, .load 0, .test .eq 2, .jump true 3, .load 0, .arith .mul 2,
          .test .eq 6]).program =
        ⟨[.arith .mul 2, .test .eq 4, .jump false 4, .load 0, .test .eq 2, .jump true 2,
          .arith .mul 2, .test .eq 6], { rounds := 1 }, [.round 1 0 8]⟩ := by
  have hcompile : Program.compile "n*2 == 4 && n == 2 || n*2 == 6".toList =
      .ok [.load 0, .arith .mul 2, .test .eq 4, .jump false 3, .load 0, .test .eq 2,
        .jump true 3, .load 0, .arith .mul 2, .test .eq 6] := by decide +kernel
  obtain ⟨-, -, -, hagain⟩ := optimize_compile hcompile
  have hprogram : (optimize defaultRounds [.load 0, .arith .mul 2, .test .eq 4, .jump false 3,
        .load 0, .test .eq 2, .jump true 3, .load 0, .arith .mul 2, .test .eq 6]).program =
      [.arith .mul 2, .test .eq 4, .jump false 4, .load 0, .test .eq 2, .jump true 2,
        .arith .mul 2, .test .eq 6] := by decide +kernel
  refine ⟨hcompile, by decide +kernel, hagain.trans ?_⟩
  rw [hprogram]
  rfl

end Optimizer

end PluralForms
