import PluralForms.Optimizer.Passes
import PluralForms.Proofs.Analysis
import PluralForms.Proofs.Removal

/-! The passes of the optimizer keep the meaning of a program and make no run of it longer. Each
changed program follows the runs of the one before: where the analysis allows a change, the parts of
a run that differ leave the same register and the same status at the same place. -/

namespace PluralForms

open Relation

/-- The programs end with the same values for each count, so neither ends where the other goes on
forever. -/
def Program.Equivalent (p q : Program) : Prop :=
  ∀ n v, Machine.exec p n = some v ↔ Machine.exec q n = some v

namespace Program.Equivalent

variable {p q r : Program}

theorem refl (p : Program) : p.Equivalent p := fun _ _ => Iff.rfl

theorem trans (hpq : p.Equivalent q) (hqr : q.Equivalent r) : p.Equivalent r :=
  fun n v => (hpq n v).trans (hqr n v)

end Program.Equivalent

/-- The second program ends with the same values as the first, and executes at most as many
instructions until then. -/
structure Program.ImprovedBy (p q : Program) : Prop where
  equivalent : p.Equivalent q
  executes : ∀ n v k, Machine.Executes p n v k (.start n) →
    ∃ j ≤ k, Machine.Executes q n v j (.start n)

namespace Program.ImprovedBy

variable {p q r : Program}

theorem refl (p : Program) : p.ImprovedBy p := ⟨.refl p, fun _ _ k h => ⟨k, le_refl k, h⟩⟩

theorem trans (hpq : p.ImprovedBy q) (hqr : q.ImprovedBy r) : p.ImprovedBy r := by
  refine ⟨hpq.equivalent.trans hqr.equivalent, fun n v k h => ?_⟩
  obtain ⟨j, hj, hq⟩ := hpq.executes n v k h
  obtain ⟨i, hi, hr⟩ := hqr.executes n v j hq
  exact ⟨i, hi.trans hj, hr⟩

theorem of_follows (h : ∀ n, ∃ holds move, Machine.Follows p q n holds move) :
    p.ImprovedBy q := by
  refine ⟨fun n v => ?_, fun n v k hrun => ?_⟩
  · obtain ⟨holds, move, hf⟩ := h n
    exact hf.exec_eq
  · obtain ⟨holds, move, hf⟩ := h n
    obtain ⟨j, hj, hrun'⟩ := hf.executes hf.start.1 hrun
    exact ⟨j, hj, hf.start.2 ▸ hrun'⟩

end Program.ImprovedBy

namespace Machine

open Program Analysis

variable {p q : Program} {n : Int64} {s s' : State} {run : Program}

/-! ### Parts of runs -/

/-- A step depends on the instruction at its place and on the size of the program. -/
theorem step_congr (hlen : q.length = p.length) (hget : q[s.index]? = p[s.index]?) :
    step q n s = step p n s := by
  simp only [step, hget, hlen]

/-- A step goes to the next instruction, to a place where a jump lands, or to the end. -/
theorem step_index (h : step p n s = .next s') :
    s'.index = s.index + 1 ∨ p.isTarget s'.index = true ∨ s'.index = p.length := by
  cases hi : p[s.index]? with
  | none =>
    rw [step_end (List.getElem?_eq_none_iff.mp hi)] at h
    simp at h
  | some instruction =>
    cases instruction with
    | ret v =>
      rw [step_ret hi] at h
      simp at h
    | jump on offset =>
      rw [step_jump hi] at h
      obtain rfl := Step.next.inj h
      rw [Instruction.jumpIndex_eq on, isTarget_iff]
      by_cases hs : s.status = on
      · cases ht : (Instruction.jump on offset).landing? p.length s.index with
        | none => exact .inr (.inr (by simp [hs]))
        | some target =>
          refine .inr (.inl ⟨s.index, ?_⟩)
          simp [Program.landing?, hi, ht, hs]
      · exact .inl (by simp [hs])
    | test comparison operand =>
      rw [step_test hi] at h
      obtain rfl := Step.next.inj h
      exact .inl rfl
    | load _ | arith _ _ | loadMod _ =>
      rw [step_alter hi rfl] at h
      obtain rfl := Step.next.inj h
      exact .inl rfl

/-- A jump that is aimed at a place goes there if it is taken. -/
theorem step_aim {on : Bool} {offset : Int} {target : Nat}
    (hget : q[s.index]? = some ((Instruction.jump on offset).aim s.index target))
    (hle : target ≤ q.length) :
    step q n s = .next { s with index := if s.status = on then target else s.index + 1 } := by
  rw [step_jump hget, Instruction.jumpIndex_of_landing (Instruction.landing?_aim on offset hle)]

/-- A redundant part of a run leads to the place past it and changes nothing else. -/
theorem steps_redundant {state : RegisterState} {length : Nat}
    (hlength : state.redundantLength? run = some length) (hd : state.Describes n s.register)
    (halters : ∀ instruction ∈ run, instruction.altersRegister = true)
    (hrun : run <+: p.drop s.index) :
    TransGen (system p n).Next s { s with index := s.index + length } ∧
      s.index + length ≤ p.length := by
  obtain ⟨hpos, hle, hfold⟩ := RegisterState.redundantLength?_spec hlength hd
  have htaken : ∀ instruction ∈ run.take length, instruction.altersRegister = true :=
    fun instruction h => halters instruction (List.mem_of_mem_take h)
  have hsteps := steps_run (n := n) htaken ((List.take_prefix length run).trans hrun)
  have hsize := hrun.length_le
  rw [List.length_take_of_le hle, hfold] at hsteps
  rw [List.length_drop] at hsize
  exact ⟨steps_of_index_lt hsteps (by dsimp only; omega), by omega⟩

/-! ### Removal of instructions without an effect -/

/-- Instructions that lead to the next one and change nothing can be removed. It counts as one that
no run comes to it. -/
theorem improvedBy_removeIdle {gone : Instruction → Nat → Bool}
    (idle : ∀ n s instruction, Sound p n s → p[s.index]? = some instruction →
      gone instruction s.index = true → step p n s = .next { s with index := s.index + 1 }) :
    p.ImprovedBy (p.removeWhere gone) := by
  refine .of_follows fun n => ⟨Sound p n, follows_removeWhere (sound_start p n) ?_ ?_⟩
  · exact fun s s' hs hn _ => sound_next hs hn
  · intro s instruction hs hinst hgone
    have hn := next_iff.mpr (idle n s instruction hs hinst hgone)
    refine ⟨_, .single hn, sound_next hs hn, Nat.lt_succ_self _, rfl, rfl, fun i hi => ?_⟩
    obtain rfl : i = s.index := Nat.le_antisymm (Nat.le_of_lt_succ hi.2) hi.1
    exact ⟨instruction, hinst, hgone⟩

/-- A load changes nothing where the register holds the count. -/
theorem step_load_of_holdsCount {unused : Int64} (hs : Sound p n s)
    (hinst : p[s.index]? = some (.load unused))
    (hcount : (Analysis.of p).holdsCount s.index = true) :
    step p n s = .next { s with index := s.index + 1 } := by
  obtain ⟨state, hstate, hd⟩ := hs (List.getElem?_eq_some_iff.mp hinst).1
  rw [holdsCount, hstate] at hcount
  obtain rfl : state = .initial := by simpa using hcount
  have hregister : s.register = n := hd
  rw [step_alter hinst rfl, Instruction.register, hregister]

theorem improvedBy_eliminateLoads (p : Program) : p.ImprovedBy p.eliminateLoads.1 := by
  refine improvedBy_removeIdle fun n s instruction hs hinst hgone => ?_
  simp only [isRedundantLoad, Bool.and_eq_true, decide_eq_true_eq] at hgone
  obtain ⟨⟨-, hload⟩, hcount⟩ := hgone
  cases instruction with
  | load unused => exact step_load_of_holdsCount hs hinst hcount
  | _ => simp [Instruction.opcode] at hload

theorem equivalent_eliminateLoads (p : Program) : p.Equivalent p.eliminateLoads.1 :=
  (improvedBy_eliminateLoads p).equivalent

theorem improvedBy_removeLeadingLoad (p : Program) : p.ImprovedBy p.removeLeadingLoad.1 := by
  simp only [removeLeadingLoad]
  split
  · next unused rest =>
    split
    · next hcount =>
      rw [Prod.fst]
      refine improvedBy_removeIdle fun n s instruction hs hinst hgone => ?_
      have hindex : s.index = 0 := by simpa using hgone
      have hload : (Instruction.load unused :: rest)[s.index]? = some (.load unused) := by
        simp [hindex]
      exact step_load_of_holdsCount hs hload (hindex ▸ hcount)
    · exact .refl _
  · exact .refl _

theorem equivalent_removeLeadingLoad (p : Program) : p.Equivalent p.removeLeadingLoad.1 :=
  (improvedBy_removeLeadingLoad p).equivalent

theorem improvedBy_eliminateDead (p : Program) : p.ImprovedBy p.eliminateDead.1 := by
  simp only [eliminateDead]
  refine improvedBy_removeIdle fun n s instruction hs hinst hgone => ?_
  obtain ⟨state, hstate, -⟩ := hs (List.getElem?_eq_some_iff.mp hinst).1
  have hreachable : (Analysis.of p).isReachable s.index = true := by simp [isReachable, hstate]
  simp only [hreachable, Bool.not_true, Bool.false_or, Bool.true_and, decide_eq_true_eq] at hgone
  obtain ⟨on, offset, rfl, -, -⟩ := Instruction.landing?_eq_some_iff.mp hgone
  rw [step_jump hinst, Instruction.jumpIndex_of_landing hgone, ite_self]

theorem equivalent_eliminateDead (p : Program) : p.Equivalent p.eliminateDead.1 :=
  (improvedBy_eliminateDead p).equivalent

theorem isTarget_of (p : Program) (i : Nat) : (Analysis.of p).isTarget i = p.isTarget i :=
  getD_targets p i

/-! ### Parts that calculate what the register holds already -/

theorem registerRun_spec (analysis : Analysis) (index : Nat) (rest : Program) :
    registerRun analysis index rest <+: rest ∧
      (∀ instruction ∈ registerRun analysis index rest, instruction.altersRegister = true) ∧
      ∀ k < (registerRun analysis index rest).length, analysis.isTarget (index + k) = false := by
  induction rest generalizing index with
  | nil => simp [registerRun]
  | cons instruction rest ih =>
    obtain ⟨hstarts, halters, htarget⟩ := ih (index + 1)
    simp only [registerRun]
    split
    · next h =>
      simp only [Bool.and_eq_true, Bool.not_eq_true'] at h
      refine ⟨List.prefix_cons_inj instruction |>.mpr hstarts, ?_, fun k hk => ?_⟩
      · simpa using ⟨h.1, halters⟩
      · cases k with
        | zero => exact h.2
        | succ k => exact (Nat.add_right_comm index 1 k) ▸ htarget k (by simpa using hk)
    · exact ⟨List.nil_prefix, by simp, by simp⟩

/-- A run of instructions that alter the register starts at `start`, and its first `length`
instructions calculate what the register holds already. -/
structure Cut (p : Program) (start length : Nat) : Prop where
  begins : ∀ i, start = i + 1 → p.isTarget start = true ∨
    ∃ instruction, p[i]? = some instruction ∧ instruction.altersRegister = false
  redundant : ∃ first rest, p.drop start = first :: rest ∧ first.altersRegister = true ∧
    prefixLength? (Analysis.of p) start first rest = some length

theorem cut_of_mem_prefixes {rest : Program} {inRun : Bool} {index start length : Nat}
    (hrest : p.drop index = rest)
    (hrun : inRun = false → ∀ i, index = i + 1 →
      ∃ instruction, p[i]? = some instruction ∧ instruction.altersRegister = false)
    (h : (start, length) ∈ prefixes (Analysis.of p) inRun index rest) : Cut p start length := by
  induction rest generalizing inRun index with
  | nil => simp [prefixes] at h
  | cons instruction rest ih =>
    have hget : p[index]? = some instruction := by
      have := congrArg (·[0]?) hrest
      simpa using this
    have hothers : (start, length) ∈
        prefixes (Analysis.of p) instruction.altersRegister (index + 1) rest → Cut p start length :=
      ih (by rw [← List.tail_drop, hrest, List.tail_cons]) fun halters i hi =>
        ⟨instruction, by rw [← Nat.succ.inj hi, hget], halters⟩
    simp only [prefixes] at h
    split at h
    · next hstart =>
      simp only [Bool.and_eq_true, Bool.or_eq_true, Bool.not_eq_true'] at hstart
      split at h
      · next found hfound =>
        rcases List.mem_cons.mp h with heq | h
        · obtain ⟨rfl, rfl⟩ := Prod.mk.inj heq
          refine ⟨fun i hi => ?_, instruction, rest, hrest, hstart.1, hfound⟩
          rcases hstart.2 with hin | htarget
          · exact .inr (hrun hin i hi)
          · exact .inl (isTarget_of p _ ▸ htarget)
        · exact hothers h
      · exact hothers h
    · exact hothers h

namespace Cut

variable {start length : Nat}

/-- The redundant part of a cut and what is known where it starts. -/
theorem spec (h : Cut p start length) :
    ∃ state run, (Analysis.of p).state? start = some state ∧
      state.redundantLength? run = some length ∧ run <+: p.drop start ∧
      (∀ instruction ∈ run, instruction.altersRegister = true) ∧
      ∀ k, 0 < k → k < run.length → p.isTarget (start + k) = false := by
  obtain ⟨first, rest, hdrop, hfirst, hlength⟩ := h.redundant
  obtain ⟨hstarts, halters, htarget⟩ := registerRun_spec (Analysis.of p) (start + 1) rest
  simp only [prefixLength?, Option.bind_eq_bind, Option.bind_eq_some_iff] at hlength
  obtain ⟨state, hstate, found, hfound, hif⟩ := hlength
  obtain rfl : found = length := by
    split at hif
    · simp at hif
    · exact Option.some.inj hif
  refine ⟨state, _, hstate, hfound, hdrop ▸ (List.prefix_cons_inj first).mpr hstarts, ?_, ?_⟩
  · simpa using ⟨hfirst, halters⟩
  · intro k hpos hk
    obtain ⟨k, rfl⟩ := Nat.exists_eq_succ_of_ne_zero (Nat.ne_of_gt hpos)
    rw [← isTarget_of, Nat.succ_eq_add_one, Nat.add_comm k, ← Nat.add_assoc]
    exact htarget k (by simpa using hk)

theorem getElem? (h : Cut p start length) {i : Nat} (hs : start ≤ i) (hi : i < start + length) :
    (∃ instruction, p[i]? = some instruction ∧ instruction.altersRegister = true) ∧
      (start < i → p.isTarget i = false) := by
  obtain ⟨state, run, -, hlength, ⟨tail, htail⟩, halters, htarget⟩ := h.spec
  have hle := RegisterState.redundantLength?_le hlength
  obtain ⟨k, rfl⟩ := Nat.exists_eq_add_of_le hs
  have hk : k < run.length := by omega
  refine ⟨⟨run[k], ?_, halters _ (List.getElem_mem _)⟩, fun hlt => ?_⟩
  · rw [← List.getElem?_drop, ← htail, List.getElem?_append_left (by omega),
      List.getElem?_eq_getElem]
  · exact htarget k (by omega) (by omega)

/-- No cut starts inside another one. -/
theorem apart {start' length' : Nat} (h : Cut p start length) (h' : Cut p start' length')
    (hlt : start < start') : start + length ≤ start' := by
  by_contra hle
  obtain ⟨i, rfl⟩ := Nat.exists_eq_succ_of_ne_zero (Nat.ne_of_gt (Nat.zero_lt_of_lt hlt))
  rcases h'.begins i rfl with htarget | ⟨instruction, hinst, halters⟩
  · rw [(h.getElem? (i := i + 1) (by omega) (by omega)).2 hlt] at htarget
    simp at htarget
  · obtain ⟨⟨instruction', hinst', halters'⟩, -⟩ := h.getElem? (i := i) (by omega) (by omega)
    obtain rfl := Option.some.inj (hinst.symm.trans hinst')
    simp [halters] at halters'

theorem length_unique {length' : Nat} (h : Cut p start length) (h' : Cut p start length') :
    length = length' := by
  obtain ⟨first, rest, hdrop, -, hlength⟩ := h.redundant
  obtain ⟨first', rest', hdrop', -, hlength'⟩ := h'.redundant
  obtain ⟨rfl, rfl⟩ := List.cons.inj (hdrop.symm.trans hdrop')
  exact Option.some.inj (hlength.symm.trans hlength')

/-- A run that is at the start of a cut comes to its end, and nothing has changed. -/
theorem steps (h : Cut p s.index length) (hs : Sound p n s) :
    TransGen (system p n).Next s { s with index := s.index + length } := by
  obtain ⟨state, run, hstate, hlength, hstarts, halters, -⟩ := h.spec
  obtain ⟨first, rest, hdrop, -, -⟩ := h.redundant
  have hlt : s.index < p.length := by
    have := congrArg List.length hdrop
    rw [List.length_drop, List.length_cons] at this
    omega
  obtain ⟨state', hstate', hd⟩ := hs hlt
  obtain rfl := Option.some.inj (hstate.symm.trans hstate')
  exact (steps_redundant hlength hd halters hstarts).1

end Cut

/-- No cut that is made reaches over the place of the state. -/
def OutsideCuts (cuts : List (Nat × Nat)) (s : State) : Prop :=
  ∀ start length, (start, length) ∈ cuts → s.index ≤ start ∨ start + length ≤ s.index

theorem improvedBy_eliminatePrefixes (p : Program) : p.ImprovedBy p.eliminatePrefixes.1 := by
  obtain ⟨cuts, hcuts⟩ : ∃ cuts, cuts = prefixes (Analysis.of p) false 0 p := ⟨_, rfl⟩
  have cut_of_mem : ∀ start length, (start, length) ∈ cuts → Cut p start length :=
    fun start length h => cut_of_mem_prefixes rfl (by simp) (hcuts ▸ h)
  simp only [eliminatePrefixes, ← hcuts]
  refine .of_follows fun n => ⟨fun s => Sound p n s ∧ OutsideCuts cuts s,
    follows_removeWhere ⟨sound_start p n, fun _ _ _ => .inl (Nat.zero_le _)⟩ ?_ ?_⟩
  · rintro s s' ⟨hs, hout⟩ hn hkept
    refine ⟨sound_next hs hn, fun start length hmem => ?_⟩
    have hcut := cut_of_mem start length hmem
    by_contra hin
    rw [not_or, not_le, not_le] at hin
    -- A run cannot come into a cut but from its start, which is removed with it.
    rcases step_index (next_iff.mp hn) with hindex | htarget | hend
    · obtain ⟨⟨instruction, hinst, -⟩, -⟩ := hcut.getElem? (i := s.index) (by omega) (by omega)
      have hany := hkept instruction hinst
      simp only [List.any_eq_false, Bool.and_eq_true, decide_eq_true_eq] at hany
      exact hany (start, length) hmem (by dsimp only; omega)
    · rw [(hcut.getElem? (Nat.le_of_lt hin.1) hin.2).2 hin.1] at htarget
      simp at htarget
    · obtain ⟨⟨instruction, hinst, -⟩, -⟩ := hcut.getElem? (Nat.le_of_lt hin.1) hin.2
      have := (List.getElem?_eq_some_iff.mp hinst).1
      omega
  · rintro s instruction ⟨hs, hout⟩ hinst hgone
    simp only [List.any_eq_true, Prod.exists, Bool.and_eq_true, decide_eq_true_eq] at hgone
    obtain ⟨start, length, hmem, hle, hlt⟩ := hgone
    obtain rfl : start = s.index := by
      have := hout start length hmem
      omega
    have hcut := cut_of_mem _ length hmem
    have hsteps := hcut.steps hs
    refine ⟨_, hsteps, ⟨sound_steps hs hsteps.to_reflTransGen, ?_⟩, hlt, rfl, rfl, ?_⟩
    · intro start' length' hmem'
      have hcut' := cut_of_mem _ length' hmem'
      rcases Nat.lt_trichotomy s.index start' with h | rfl | h
      · exact .inl (hcut.apart hcut' h)
      · exact .inr (by simp [hcut.length_unique hcut'])
      · have := hcut'.apart hcut h
        exact .inr (by dsimp only; omega)
    · intro i hi
      obtain ⟨⟨instruction', hinst', -⟩, -⟩ := hcut.getElem? hi.1 hi.2
      refine ⟨instruction', hinst', ?_⟩
      simp only [List.any_eq_true, Prod.exists, Bool.and_eq_true, decide_eq_true_eq]
      exact ⟨_, length, hmem, hi⟩

theorem equivalent_eliminatePrefixes (p : Program) : p.Equivalent p.eliminatePrefixes.1 :=
  (improvedBy_eliminatePrefixes p).equivalent

/-! ### Remainders -/

theorem fusible?_eq_some {i : Nat} {operand : Int64}
    (h : fusible? p.toArray (Analysis.of p) i = some operand) :
    ∃ unused, p[i]? = some (.load unused) ∧ p[i + 1]? = some (.arith .mod operand) ∧
      p.isTarget (i + 1) = false := by
  simp only [fusible?, List.getElem?_toArray, isTarget_of] at h
  split at h
  · next unused operand' hload hmod =>
    rw [Option.ite_none_left_eq_some, Bool.not_eq_true] at h
    obtain ⟨htarget, heq⟩ := h
    obtain rfl := Option.some.inj heq
    exact ⟨unused, hload, hmod, htarget⟩
  · simp at h

/-- The state is not between the two instructions of a remainder that is fused. -/
def OutsideFused (p : Program) (s : State) : Prop :=
  ∀ i, s.index = i + 1 → fusible? p.toArray (Analysis.of p) i = none

theorem outsideFused_next (hn : (system p n).Next s s')
    (hs : fusible? p.toArray (Analysis.of p) s.index = none) : OutsideFused p s' := by
  intro i hi
  rcases step_index (next_iff.mp hn) with hindex | htarget | hend
  · obtain rfl : i = s.index := by omega
    exact hs
  · by_contra hne
    obtain ⟨operand, hsome⟩ := Option.ne_none_iff_exists'.mp hne
    obtain ⟨-, -, -, hno⟩ := fusible?_eq_some hsome
    simp [← hi, htarget] at hno
  · by_contra hne
    obtain ⟨operand, hsome⟩ := Option.ne_none_iff_exists'.mp hne
    obtain ⟨-, -, hmod, -⟩ := fusible?_eq_some hsome
    have := (List.getElem?_eq_some_iff.mp hmod).1
    omega

/-- Two steps calculate a remainder of the count and come to a place that stays. -/
theorem steps_of_fusible {operand : Int64}
    (h : fusible? p.toArray (Analysis.of p) s.index = some operand) :
    TransGen (system p n).Next s ⟨s.index + 2, Arithmetic.mod.apply n operand, s.status⟩ ∧
      OutsideFused p ⟨s.index + 2, Arithmetic.mod.apply n operand, s.status⟩ := by
  obtain ⟨unused, hload, hmod, -⟩ := fusible?_eq_some h
  have hstep := step_alter (n := n) hload rfl
  have hstep' := step_alter (n := n)
    (s := ⟨s.index + 1, Instruction.register n s.register (.load unused), s.status⟩) hmod rfl
  refine ⟨.head (next_iff.mpr hstep) (.single (next_iff.mpr hstep')), fun i hi => ?_⟩
  obtain rfl : i = s.index + 1 := by
    dsimp only at hi
    omega
  simp [fusible?, hmod]

theorem improvedBy_fuseMods (p : Program) : p.ImprovedBy p.fuseMods.1 := by
  obtain ⟨fused, hfused⟩ : ∃ fused : Program, fused = p.mapIdx fun index instruction =>
      ((fusible? p.toArray (Analysis.of p) index).map Instruction.loadMod).getD instruction :=
    ⟨_, rfl⟩
  have hlen : fused.length = p.length := by rw [hfused, List.length_mapIdx]
  have hget : ∀ i : Nat, fused[i]? = (p[i]?).map
      ((fusible? p.toArray (Analysis.of p) i).map Instruction.loadMod).getD := by
    intro i
    rw [hfused, List.getElem?_mapIdx]
  simp only [fuseMods, ← hfused, removeWhere_eq]
  refine .of_follows fun n => ⟨OutsideFused p, _, follows_remove (length_marks _) hlen
    (fun i hi => by simp [State.start] at hi) (fun s hs _ => ?_) fun s hs h => ?_⟩
  · cases hf : fusible? p.toArray (Analysis.of p) s.index with
    | none =>
      have hstep : step fused n s = step p n s :=
        step_congr hlen (by simp [hget, hf, show none.getD = @id Instruction from rfl])
      rw [hstep]
      cases hp : step p n s with
      | done v => exact .inl ⟨v, rfl, rfl⟩
      | next s' =>
        have hn := next_iff.mpr hp
        exact .inr ⟨s', .single hn, outsideFused_next hn hf, rfl⟩
    | some operand =>
      obtain ⟨hsteps, hout⟩ := steps_of_fusible (n := n) hf
      obtain ⟨unused, hload, hmod, -⟩ := fusible?_eq_some hf
      have hinst : fused[s.index]? = some (.loadMod operand) := by simp [hget, hf, hload]
      have hsecond : fused[s.index + 1]? = some (.arith .mod operand) := by
        simp [hget, fusible?, hmod]
      refine .inr ⟨_, hsteps, hout, ?_⟩
      rw [step_alter hinst rfl, Step.moved, State.moved, State.moved]
      dsimp only
      rw [place_succ_of_gone (i := s.index + 1)]
      · rfl
      · rw [marks_getElem?, hsecond]
        simp [hf]
  · rw [marks_getElem?] at h
    obtain ⟨instruction, -, hgone⟩ := Option.map_eq_some_iff.mp h
    simp only [Bool.and_eq_true, bne_iff_ne, ne_eq] at hgone
    have hnone := hs (s.index - 1) (by omega)
    simp [hnone] at hgone

theorem equivalent_fuseMods (p : Program) : p.Equivalent p.fuseMods.1 :=
  (improvedBy_fuseMods p).equivalent

end Machine

end PluralForms
