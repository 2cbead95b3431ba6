import PluralForms.Proofs.Potential
import PluralForms.Proofs.Trimming

/-! The passes that trim tidy programs: what calculates a value that the register holds already, the
loads of the count where the register holds it, and the dead code that remains of calculations past
which all jumps go. -/

namespace PluralForms

namespace Program

open Analysis Machine

variable {p : Program} {i j t start length : Nat} {state : RegisterState}
  {instruction : Instruction}

/-! ### Redundant parts -/

theorem mem_prefixes_of_cut {rest : Program} {inRun : Bool} {index : Nat}
    (hcut : Cut p start length) (hrest : p.drop index = rest)
    (hrun : inRun = true → ∃ i, index = i + 1 ∧ p.Alters i) (hle : index ≤ start) :
    (start, length) ∈ prefixes (Analysis.of p) inRun index rest := by
  induction rest generalizing inRun index with
  | nil =>
    obtain ⟨first, rest, hdrop, -, -⟩ := hcut.redundant
    have hend := List.drop_eq_nil_iff.mp hrest
    rw [List.drop_eq_nil_of_le (hend.trans hle)] at hdrop
    cases hdrop
  | cons instruction rest ih =>
    have hget : p[index]? = some instruction := by
      have := congrArg (·[0]?) hrest
      simpa using this
    have htail : p.drop (index + 1) = rest := by rw [← List.tail_drop, hrest, List.tail_cons]
    rcases Nat.lt_or_eq_of_le hle with hlt | rfl
    · have hmem : (start, length) ∈
          prefixes (Analysis.of p) instruction.altersRegister (index + 1) rest := ih htail
        (fun halters => ⟨index, rfl, alters_iff.mpr ⟨instruction, hget, halters⟩⟩) hlt
      rw [prefixes]
      split
      · split
        · exact List.mem_cons_of_mem _ hmem
        · exact hmem
      · exact hmem
    · obtain ⟨first, rest', hdrop, hfirst, hlength⟩ := hcut.redundant
      obtain ⟨rfl, rfl⟩ := List.cons.inj (hrest.symm.trans hdrop)
      have hstarts : (!inRun || (Analysis.of p).isTarget index) = true := by
        cases inRun with
        | false => rfl
        | true =>
          obtain ⟨i, hi, halters⟩ := hrun rfl
          rw [isTarget_of]
          refine (hcut.begins i hi).resolve_right ?_
          rintro ⟨other, hother, hkeeps⟩
          obtain ⟨other', hother', halters⟩ := alters_iff.mp halters
          obtain rfl := Option.some.inj (hother.symm.trans hother')
          simp [halters] at hkeeps
      rw [prefixes, hfirst, hstarts, hlength]
      exact List.mem_cons_self

/-- The marks of the parts that calculate what the register holds already. -/
def prefixMarks (p : Program) : List Bool :=
  p.marks fun _ index => (prefixes (Analysis.of p) false 0 p).any fun (start, length) =>
    start ≤ index && index < start + length

theorem eliminatePrefixes_eq (p : Program) : p.eliminatePrefixes.1 = p.remove p.prefixMarks := rfl

theorem prefixMarks_iff :
    p.prefixMarks[i]? = some true ↔
      ∃ start length, Cut p start length ∧ start ≤ i ∧ i < start + length := by
  simp only [prefixMarks, marks_getElem?, Option.map_eq_some_iff, List.any_eq_true, Prod.exists,
    Bool.and_eq_true, decide_eq_true_eq]
  constructor
  · rintro ⟨-, -, start, length, hmem, hin⟩
    exact ⟨start, length, cut_of_mem_prefixes rfl (by simp) hmem, hin⟩
  · rintro ⟨start, length, hcut, hle, hlt⟩
    obtain ⟨⟨instruction, hget, -⟩, -⟩ := hcut.getElem? hle hlt
    exact ⟨instruction, hget, start, length,
      mem_prefixes_of_cut hcut rfl (by simp) (Nat.zero_le _), hle, hlt⟩

/-- A path that comes to the start of a redundant part leaves the same state behind at its end. -/
theorem Reaches.cut (h : p.Reaches start state) (hcut : Cut p start length) :
    p.Reaches (start + length) state := by
  obtain ⟨known, run, hknown, hlength, hrun, halters, -⟩ := hcut.spec
  obtain rfl := h.eq_of_state? hknown (RegisterState.isKnown_of_redundantLength? hlength)
  exact h.redundant hrun halters hlength

theorem prefixMarks_of_succ (h : p.Shaped) (hgone : p.prefixMarks[i + 1]? = some true)
    (halters : p.Alters i) : p.prefixMarks[i]? = some true := by
  obtain ⟨start, length, hcut, hle, hlt⟩ := prefixMarks_iff.mp hgone
  rcases Nat.lt_or_eq_of_le hle with hstart | rfl
  · exact prefixMarks_iff.mpr ⟨start, length, hcut, by omega, by omega⟩
  · exact absurd (h.reset_of_cut hcut) (h.ne_reset halters)

/-- Behind a redundant part the next instruction stays. -/
theorem prefixMarks_end (h : p.Shaped) (hcut : Cut p start length) :
    p.prefixMarks[start + length]? = some false := by
  obtain ⟨state, run, -, hlength, -, -, -⟩ := hcut.spec
  obtain ⟨last, rfl⟩ :=
    Nat.exists_eq_succ_of_ne_zero (RegisterState.redundantLength?_pos hlength).ne'
  have halters : p.Alters (start + last) :=
    alters_iff.mpr (hcut.getElem? (Nat.le_add_right ..) (by omega)).1
  refine kept_of_not_gone (length_marks _) (h.lt_of_alters halters) fun hgone => ?_
  obtain ⟨start', length', hcut', hle', hlt'⟩ := prefixMarks_iff.mp hgone
  rcases Nat.lt_trichotomy start start' with hbefore | rfl | hbehind
  · have hapart := hcut.apart hcut' hbefore
    obtain rfl : start' = start + last + 1 := by omega
    exact h.ne_reset halters (h.reset_of_cut hcut')
  · have := hcut.length_unique hcut'
    omega
  · have := hcut'.apart hcut hbehind
    omega

theorem trims_prefixMarks (h : p.Tidy) : p.Trims p.prefixMarks where
  length := length_marks _
  alters := by
    intro i hgone
    obtain ⟨start, length, hcut, hle, hlt⟩ := prefixMarks_iff.mp hgone
    exact alters_iff.mpr (hcut.getElem? hle hlt).1
  stays := by
    intro i hkept halters
    refine kept_of_not_gone (length_marks _) (h.lt_of_alters halters) fun hgone => ?_
    rw [prefixMarks_of_succ h.toShaped hgone halters] at hkept
    cases hkept
  pass := by
    intro t state hgone hpath hfrom
    obtain ⟨start, length, hcut, hle, hlt⟩ := prefixMarks_iff.mp hgone
    obtain rfl : t = start := by
      by_contra hne
      have hnot := (hcut.getElem? hle hlt).2 (by omega)
      rcases hfrom with rfl | ⟨i, hkept, hedge⟩
      · omega
      · cases hedge with
        | behind =>
          rw [prefixMarks_iff.mpr ⟨start, length, hcut, by omega, by omega⟩] at hkept
          cases hkept
        | landing hlands =>
          rw [isTarget_iff.mpr ⟨i, hlands⟩] at hnot
          cases hnot
    exact ⟨t + length, prefixMarks_end h.toShaped hcut, place_eq_of_gone (Nat.le_add_right ..)
      fun k hk hlt' => prefixMarks_iff.mpr ⟨t, length, hcut, hk, hlt'⟩, hpath.cut hcut⟩

theorem eliminatePrefixes_eq_self (h : ∀ start length, ¬Cut p start length) :
    p.eliminatePrefixes = (p, 0) := by
  refine p.lowers_eliminatePrefixes.pair_eq ?_
  simp only [eliminatePrefixes, List.length_eq_zero_iff, List.eq_nil_iff_forall_not_mem]
  rintro ⟨start, length⟩ hmem
  exact h start length (cut_of_mem_prefixes rfl (by simp) hmem)

/-! ### Loads of the count -/

/-- The marks of the loads of the count, but not at the start, where the register holds it. -/
def loadMarks (p : Program) : List Bool := p.marks (isRedundantLoad (Analysis.of p))

theorem eliminateLoads_eq (p : Program) : p.eliminateLoads.1 = p.remove p.loadMarks := rfl

/-- Loads of the count at chosen places are marked where the register holds the count already. -/
theorem marks_loads_iff (chosen : Nat → Bool) :
    (p.marks fun instruction index =>
        chosen index && instruction.opcode = .load && (Analysis.of p).holdsCount index)[i]? =
      some true ↔
      chosen i = true ∧ (∃ unused, p[i]? = some (.load unused)) ∧
        (Analysis.of p).state? i = some .initial := by
  simp only [marks_getElem?, Option.map_eq_some_iff, Bool.and_eq_true, decide_eq_true_eq,
    holdsCount]
  constructor
  · rintro ⟨instruction, hget, ⟨hchosen, hload⟩, hstate⟩
    cases instruction with
    | load unused => exact ⟨hchosen, ⟨unused, hget⟩, hstate⟩
    | arith | loadMod | ret | jump | test => cases hload
  · rintro ⟨hchosen, ⟨unused, hget⟩, hstate⟩
    exact ⟨_, hget, ⟨hchosen, rfl⟩, hstate⟩

theorem loadMarks_iff :
    p.loadMarks[i]? = some true ↔
      i ≠ 0 ∧ (∃ unused, p[i]? = some (.load unused)) ∧
        (Analysis.of p).state? i = some .initial :=
  (marks_loads_iff fun index => index != 0).trans (by rw [bne_iff_ne])

theorem kind?_of_load (hget : ∃ unused, p[i]? = some (.load unused)) :
    p.kind? i = some .reset := by
  obtain ⟨unused, hget⟩ := hget
  exact kind?_of_getElem? hget

/-- Single loads are trimmed off where the register holds the count whenever a path comes there. -/
theorem trims_loads {removed : List Bool} (h : p.Tidy) (hlen : removed.length = p.length)
    (hload : ∀ i, removed[i]? = some true → (∃ unused, p[i]? = some (.load unused)) ∧
      (Analysis.of p).state? i = some .initial) : p.Trims removed := by
  have halters : ∀ i, removed[i]? = some true → p.Alters i := fun i hgone =>
    ⟨.reset, kind?_of_load (hload i hgone).1, rfl⟩
  have hstays : ∀ i, p.Alters i → removed[i + 1]? = some false := fun i halters =>
    kept_of_not_gone hlen (h.lt_of_alters halters) fun hgone =>
      h.ne_reset halters (kind?_of_load (hload (i + 1) hgone).1)
  refine ⟨⟨hlen, fun hgone => halters _ hgone⟩, fun _ halters => hstays _ halters, ?_⟩
  intro t state hgone hpath _
  obtain ⟨⟨unused, hget⟩, hinitial⟩ := hload t hgone
  obtain rfl := hpath.eq_of_state? hinitial rfl
  exact ⟨t + 1, hstays t (halters t hgone), place_succ_of_gone hgone, hpath.alters hget rfl⟩

theorem trims_loadMarks (h : p.Tidy) : p.Trims p.loadMarks :=
  trims_loads h (length_marks _) fun _ hgone => (loadMarks_iff.mp hgone).2

theorem eliminateLoads_eq_self (h : ∀ i : Nat, p.loadMarks[i]? ≠ some true) :
    p.eliminateLoads = (p, 0) := by
  refine p.lowers_eliminateLoads.pair_eq ?_
  simp only [eliminateLoads]
  refine countWhere_eq_zero fun i instruction hget => Bool.eq_false_iff.mpr fun hgone => h i ?_
  rw [loadMarks, marks_getElem?, hget, Option.map_some, hgone]

/-- The mark of a load of the count at the start. -/
def leadingMarks (p : Program) : List Bool :=
  p.marks fun instruction index =>
    index = 0 && instruction.opcode = .load && (Analysis.of p).holdsCount index

theorem leadingMarks_iff :
    p.leadingMarks[i]? = some true ↔
      i = 0 ∧ (∃ unused, p[i]? = some (.load unused)) ∧
        (Analysis.of p).state? i = some .initial :=
  (marks_loads_iff fun index => decide (index = 0)).trans (by rw [decide_eq_true_iff])

theorem removeWhere_congr {gone gone' : Instruction → Nat → Bool}
    (h : ∀ (i : Nat) instruction, p[i]? = some instruction →
      gone instruction i = gone' instruction i) :
    p.removeWhere gone = p.removeWhere gone' := by
  rw [removeWhere_eq, removeWhere_eq]
  refine congrArg p.remove (List.ext_getElem? fun i => ?_)
  rw [marks_getElem?, marks_getElem?]
  exact Option.map_congr fun instruction hget => h i instruction hget

theorem removeLeadingLoad_eq (p : Program) : p.removeLeadingLoad.1 = p.remove p.leadingMarks := by
  rw [leadingMarks, ← removeWhere_eq, removeLeadingLoad.eq_def]
  split
  · split
    · next hcount =>
      rw [Prod.fst]
      refine removeWhere_congr fun i instruction hget => ?_
      cases i with
      | zero =>
        obtain rfl := Option.some.inj hget
        simp [hcount, Instruction.opcode]
      | succ i => simp
    · next hcount =>
      refine (removeWhere_eq_self fun i instruction _ => ?_).symm
      cases i with
      | zero => simp [hcount]
      | succ i => simp
  · next hload =>
    refine (removeWhere_eq_self fun i instruction hget => ?_).symm
    cases i with
    | zero =>
      cases instruction with
      | load unused =>
        obtain ⟨rest, rfl⟩ : ∃ rest, p = .load unused :: rest := by
          cases p with
          | nil => cases hget
          | cons first rest => exact ⟨rest, congrArg (· :: rest) (Option.some.inj hget)⟩
        exact absurd rfl (hload unused rest)
      | arith | loadMod | ret | jump | test => simp [Instruction.opcode]
    | succ i => simp

theorem trims_leadingMarks (h : p.Tidy) : p.Trims p.leadingMarks :=
  trims_loads h (length_marks _) fun _ hgone => (leadingMarks_iff.mp hgone).2

theorem removeLeadingLoad_eq_self (h : ∀ unused, p[0]? ≠ some (.load unused)) :
    p.removeLeadingLoad = (p, 0) := by
  rw [removeLeadingLoad.eq_def]
  split
  · next unused rest => exact absurd rfl (h unused)
  · rfl

/-! ### Dead code -/

theorem trims_dead (h : p.Tidy) :
    ∃ removed, p.Trims removed ∧ p.eliminateDead.1 = p.remove removed ∧
      ∀ i, removed[i]? = some true → ¬p.Reachable i := by
  obtain ⟨removed, hlen, heq, hkept, hidle⟩ := p.eliminateDead_marks
  -- No jump leads to the next instruction, so what is removed is dead.
  have hdead : ∀ i, removed[i]? = some true → ¬p.Reachable i :=
    fun i hgone hreachable => h.not_idle (hidle i hgone hreachable)
  refine ⟨removed, ⟨⟨hlen, fun {i} hgone => ?_⟩, fun {i} hkept' halters => ?_,
    fun hgone hpath _ => absurd hpath.reachable (hdead _ hgone)⟩, heq, hdead⟩
  · have hlt : i < p.length := hlen ▸ (List.getElem?_eq_some_iff.mp hgone).1
    exact (alters_or_keeps hlt).resolve_right fun hkeeps => hdead i hgone (h.reachable hkeeps)
  · refine kept_of_not_gone hlen (h.lt_of_alters halters) fun hgone => hdead _ hgone ?_
    exact .tail (hkept i hkept') halters.edge

theorem eliminateDead_eq_self (h : p.Shaped) (hlive : ∀ i < p.length, p.Reachable i) :
    p.eliminateDead = (p, ⟨0, 0⟩) := by
  have hcount : p.eliminateDead.2 = ⟨0, 0⟩ := by
    simp only [eliminateDead, DeadCount.mk.injEq]
    refine ⟨countWhere_eq_zero fun i instruction hget => ?_,
      countWhere_eq_zero fun i instruction hget => ?_⟩
    · have hlt := (List.getElem?_eq_some_iff.mp hget).1
      rw [isReachable_iff.mpr ⟨hlt, hlive i hlt⟩]
      rfl
    · refine Bool.eq_false_iff.mpr fun hidle => ?_
      simp only [Bool.and_eq_true, decide_eq_true_eq] at hidle
      have hlands : p.landing? i = some (i + 1) := by
        rw [landing?, hget, Option.bind_some, hidle.2]
      exact h.not_idle hlands
  have hsame := p.lowers_eliminateDead.same
  rw [hcount] at hsame
  exact Prod.ext (hsame rfl) hcount

end Program

end PluralForms
