import PluralForms.Proofs.Fusion

/-! The passes that aim jumps anew in tidy programs. No jump lands on a jump there, so none is
collapsed. A jump goes past the loads on which it lands if they calculate what the register holds
already, and then it lands where no calculation starts the register anew; so it goes past loads once
at most. -/

namespace PluralForms

namespace Program

open Analysis Machine

variable {p q : Program} {removed : List Bool} {i j t t' : Nat} {state : RegisterState}
  {instruction : Instruction}

/-! ### Jumps on jumps -/

theorem shortcut?_eq_none (h : p.Shaped) (i : Nat) : shortcut? p.toArray i = none := by
  by_contra hne
  obtain ⟨place, hplace⟩ := Option.ne_none_iff_exists'.mp hne
  obtain ⟨on, offset, first, hget, hfirst, hsettle⟩ := shortcut?_eq_some hplace
  refine ne_of_shortcut hplace hget hfirst ?_
  have hrests := h.lands (landing?_eq_some_iff.mpr ⟨on, offset, hget, hfirst⟩)
  rw [settle?, List.getElem?_toArray] at hsettle
  split at hsettle
  · next hjump => exact absurd (kind?_of_getElem? hjump) hrests
  · exact (Option.some.inj hsettle).symm

theorem collapseJumps_eq_self (h : p.Shaped) : p.collapseJumps = (p, 0) := by
  have hfold : ∀ indices : List Nat,
      indices.foldl collapseAt (p.toArray, 0) = (p.toArray, 0) := by
    intro indices
    induction indices with
    | nil => rfl
    | cons index indices ih =>
      rw [List.foldl_cons, collapseAt, shortcut?_eq_none h]
      exact ih
  have hcollapse : p.collapseJumps =
      (((List.range p.length).foldl collapseAt (p.toArray, 0)).1.toList,
        ((List.range p.length).foldl collapseAt (p.toArray, 0)).2) := rfl
  rw [hcollapse, hfold]

/-! ### Calculations -/

/-- The instructions from an index on that write the register. -/
def calculation (p : Program) (t : Nat) : Program := (p.drop t).takeWhile (·.altersRegister)

theorem calculation_prefix (p : Program) (t : Nat) : p.calculation t <+: p.drop t :=
  List.takeWhile_prefix _

theorem alters_of_mem_calculation (h : instruction ∈ p.calculation t) :
    instruction.altersRegister = true :=
  List.all_eq_true.mp List.all_takeWhile instruction h

theorem alters_of_lt_calculation (h : i < (p.calculation t).length) : p.Alters (t + i) := by
  have hget := getElem?_of_part (p.calculation_prefix t) h
  rw [List.getElem?_eq_getElem h] at hget
  exact alters_iff.mpr ⟨_, hget, alters_of_mem_calculation (List.getElem_mem h)⟩

/-- A calculation is a run of the register that no landing ends. -/
theorem takeWhile_eq_registerRun (index : Nat) (rest : Program) :
    rest.takeWhile (·.altersRegister) = registerRun ⟨#[], #[]⟩ index rest := by
  induction rest generalizing index with
  | nil => rfl
  | cons instruction rest ih =>
    rw [registerRun, List.takeWhile_cons]
    cases instruction.altersRegister with
    | true => simp [Analysis.isTarget, ← ih]
    | false => rfl

theorem registerRun_of_not_alters (analysis : Analysis) (h : ¬p.Alters t) :
    registerRun analysis t (p.drop t) = [] := by
  cases hdrop : p.drop t with
  | nil => rfl
  | cons instruction rest =>
    have hget : p[t]? = some instruction :=
      getElem?_of_cons_part (hdrop ▸ List.prefix_refl _ : instruction :: rest <+: p.drop t)
    have hkeeps : instruction.altersRegister = false :=
      Bool.eq_false_iff.mpr fun halters => h (alters_iff.mpr ⟨instruction, hget, halters⟩)
    rw [registerRun, hkeeps]
    rfl

theorem registerRun_of_alters (analysis : Analysis) (hget : p[t]? = some instruction)
    (halters : instruction.altersRegister = true) :
    registerRun analysis t (p.drop t) =
      if analysis.isTarget t then []
      else instruction :: registerRun analysis (t + 1) (p.drop (t + 1)) := by
  obtain ⟨ht, rfl⟩ := List.getElem?_eq_some_iff.mp hget
  rw [List.drop_eq_getElem_cons ht, registerRun, halters, Bool.true_and]
  cases analysis.isTarget t <;> rfl

/-- Runs of the register are the same where their instructions and the landings in them are. -/
theorem registerRun_congr {analysis analysis' : Analysis} (same : Nat → Nat → Prop)
    (h : ∀ i j, same i j → (p.Alters i → q[j]? = p[i]? ∧
      analysis'.isTarget j = analysis.isTarget i ∧ same (i + 1) (j + 1)) ∧
      (¬p.Alters i → ¬q.Alters j)) (hsame : same t t') :
    registerRun analysis' t' (q.drop t') = registerRun analysis t (p.drop t) := by
  induction hleft : p.length - t generalizing t t' with
  | zero =>
    have hnot : ¬p.Alters t := fun halters => by
      have := halters.lt
      omega
    rw [registerRun_of_not_alters _ hnot, registerRun_of_not_alters _ ((h t t' hsame).2 hnot)]
  | succ left ih =>
    by_cases halters : p.Alters t
    · obtain ⟨hget, htarget, hnext⟩ := (h t t' hsame).1 halters
      obtain ⟨instruction, hinst, halters⟩ := alters_iff.mp halters
      rw [registerRun_of_alters _ hinst halters, registerRun_of_alters _ (hget.trans hinst) halters,
        htarget, ih hnext (by omega)]
    · rw [registerRun_of_not_alters _ halters,
        registerRun_of_not_alters _ ((h t t' hsame).2 halters)]

/-- The calculation from an instruction that stays on is the same after the removal. -/
theorem Trims.registerRun_remove (h : p.Trims removed) {analysis analysis' : Analysis}
    (htarget : ∀ i, removed[i]? = some false →
      analysis'.isTarget (place removed i) = analysis.isTarget i)
    (hkept : removed[t]? ≠ some true) :
    registerRun analysis' (place removed t) ((p.remove removed).drop (place removed t)) =
      registerRun analysis t (p.drop t) := by
  refine registerRun_congr (fun i j => removed[i]? ≠ some true ∧ place removed i = j)
    (fun i j => ?_) ⟨hkept, rfl⟩
  rintro ⟨hstays, rfl⟩
  refine ⟨fun halters => ?_, fun hnot => ?_⟩
  · have hkept := kept_of_not_gone h.length halters.lt hstays
    obtain ⟨instruction, hget, hwrites⟩ := alters_iff.mp halters
    refine ⟨?_, htarget i hkept, by simp [h.stays hkept halters], place_succ_of_kept hkept⟩
    rw [hget]
    refine remove_getElem?_of_not_jump h.length hkept hget fun hjump => ?_
    rw [Instruction.altersRegister_eq, hjump] at hwrites
    cases hwrites
  · rintro ⟨kind, hkind, halters⟩
    obtain ⟨k, hkept, hplace, hkind'⟩ := exists_of_kind?_remove h.length hkind
    obtain rfl := eq_of_place_eq_kept hkept hstays hplace.symm
    exact hnot ⟨kind, hkind', halters⟩

theorem Trims.calculation_remove (h : p.Trims removed) (hkept : removed[t]? ≠ some true) :
    (p.remove removed).calculation (place removed t) = p.calculation t := by
  rw [calculation, calculation, takeWhile_eq_registerRun (place removed t),
    takeWhile_eq_registerRun t]
  exact h.registerRun_remove (fun _ _ => rfl) hkept

/-! ### Jumps past loads -/

/-- How many instructions on which a jump at `i` lands, from `t` on, it goes past. -/
def skip (p : Program) (i t : Nat) : Nat :=
  (((Analysis.of p).state? i).bind fun state => state.redundantLength? (p.calculation t)).getD 0

theorem skip_cases (p : Program) (i t : Nat) :
    p.skip i t = 0 ∨ ∃ known, (Analysis.of p).state? i = some known ∧
      known.redundantLength? (p.calculation t) = some (p.skip i t) := by
  rw [skip]
  cases hlength : ((Analysis.of p).state? i).bind fun state =>
      state.redundantLength? (p.calculation t) with
  | none => exact .inl rfl
  | some length =>
    obtain ⟨known, hknown, hlength⟩ := Option.bind_eq_some_iff.mp hlength
    exact .inr ⟨known, hknown, hlength⟩

theorem alters_of_lt_skip (h : j < p.skip i t) : p.Alters (t + j) := by
  rcases p.skip_cases i t with hzero | ⟨known, -, hlength⟩
  · omega
  · exact alters_of_lt_calculation (h.trans_le (RegisterState.redundantLength?_le hlength))

/-- A path that goes past instructions leaves the same state behind as one that goes along them. -/
theorem Reaches.skip (h : p.Reaches i state) (ht : p.Reaches t state) :
    p.Reaches (t + p.skip i t) state := by
  rcases p.skip_cases i t with hzero | ⟨known, hknown, hlength⟩
  · rwa [hzero]
  · obtain rfl := h.eq_of_state? hknown (RegisterState.isKnown_of_redundantLength? hlength)
    exact ht.redundant (p.calculation_prefix t) (fun _ => alters_of_mem_calculation) hlength

theorem pastLoads?_of_landing {on : Bool} {offset : Int}
    (ht : (Instruction.jump on offset).landing? p.length i = some t) :
    pastLoads? p p.length (Analysis.of p) (.jump on offset) i =
      (((Analysis.of p).state? i).bind fun state =>
        state.redundantLength? (p.calculation t)).map (t + ·) := by
  simp only [pastLoads?, ht, Option.bind_eq_bind, Option.bind_some, Option.pure_def]
  cases (Analysis.of p).state? i with
  | none => rfl
  | some state =>
    simp only [Option.bind_some, calculation]
    cases state.redundantLength? ((p.drop t).takeWhile (·.altersRegister)) <;> rfl

theorem landing?_elideLoads (p : Program) (i : Nat) :
    p.elideLoads.1.landing? i = (p.landing? i).map fun t => t + p.skip i t := by
  cases hlands : p.landing? i with
  | none =>
    refine (landing?_elideLoads_of_none fun instruction hget => ?_).trans hlands
    by_contra hne
    obtain ⟨place, hplace⟩ := Option.ne_none_iff_exists'.mp hne
    obtain ⟨on, offset, t, -, -, rfl, ht, -⟩ := pastLoads?_eq_some hplace
    rw [landing?_eq_some_iff.mpr ⟨on, offset, hget, ht⟩] at hlands
    cases hlands
  | some t =>
    obtain ⟨on, offset, hget, ht⟩ := landing?_eq_some_iff.mp hlands
    have hpast := pastLoads?_of_landing ht
    rw [Option.map_some, skip]
    cases hlength : ((Analysis.of p).state? i).bind fun state =>
        state.redundantLength? (p.calculation t) with
    | none =>
      rw [hlength] at hpast
      refine (landing?_elideLoads_of_none fun instruction hget' => ?_).trans hlands
      exact Option.some.inj (hget.symm.trans hget') ▸ hpast
    | some length =>
      rw [hlength] at hpast
      exact landing?_elideLoads_of_some hget hpast

theorem kind?_elideLoads (p : Program) (i : Nat) : p.elideLoads.1.kind? i = p.kind? i := by
  rw [kind?, kind?, elideLoads_getElem?, Option.map_map]
  refine Option.map_congr fun instruction _ => ?_
  dsimp only [Function.comp]
  split
  · cases instruction <;> rfl
  · rfl

/-- An instruction that is no jump stays as it is. -/
theorem elideLoads_getElem?_of_keeps (hjump : p.kind? i ≠ some .jump) :
    p.elideLoads.1[i]? = p[i]? := by
  refine elideLoads_getElem?_of_none fun instruction hget => ?_
  by_contra hne
  obtain ⟨place, hplace⟩ := Option.ne_none_iff_exists'.mp hne
  obtain ⟨on, offset, -, -, -, rfl, -⟩ := pastLoads?_eq_some hplace
  exact hjump (kind?_of_getElem? hget)

theorem calculation_elideLoads (p : Program) (t : Nat) :
    p.elideLoads.1.calculation t = p.calculation t := by
  rw [calculation, calculation, takeWhile_eq_registerRun t, takeWhile_eq_registerRun t]
  refine registerRun_congr Eq (fun i j hij => ?_) rfl
  subst hij
  refine ⟨fun ⟨kind, hkind, halters⟩ => ⟨elideLoads_getElem?_of_keeps fun hjump => ?_, rfl, rfl⟩,
    fun hnot => ?_⟩
  · obtain rfl := Option.some.inj (hkind.symm.trans hjump)
    cases halters
  · rwa [Alters, kind?_elideLoads]

theorem shaped_elideLoads (h : p.Shaped) : p.elideLoads.1.Shaped where
  valid := (keepsForm_elideLoads p).valid h.valid
  forward := (keepsForm_elideLoads p).forward h.valid h.forward
  alters := by
    simp only [Alters, kind?_elideLoads]
    exact h.alters
  jumps := by
    simp only [kind?_elideLoads]
    exact h.jumps
  passes := by
    intro i t' hlands
    rw [landing?_elideLoads] at hlands
    obtain ⟨t, ht, rfl⟩ := Option.map_eq_some_iff.mp hlands
    obtain ⟨k, hi, hk, hkeeps⟩ := h.passes ht
    exact ⟨k, hi, hk.trans_le (Nat.le_add_right ..), by rwa [Keeps, kind?_elideLoads]⟩
  lands := by
    intro i t' hlands
    rw [landing?_elideLoads] at hlands
    obtain ⟨t, ht, rfl⟩ := Option.map_eq_some_iff.mp hlands
    rw [kind?_elideLoads]
    cases hskip : p.skip i t with
    | zero => exact h.lands ht
    | succ last =>
      have halters : p.Alters (t + last) := alters_of_lt_skip (i := i) (by omega)
      rw [← Nat.add_assoc]
      rcases h.alters halters with hnext | hnext <;> simp [hnext]
  returns := by
    intro i hret hlt
    rw [kind?_elideLoads] at hret
    obtain ⟨t, ht, htarget, hall⟩ := h.returns hret (p.length_elideLoads ▸ hlt)
    obtain ⟨j, hlands⟩ := isTarget_iff.mp htarget
    refine ⟨t + p.skip j t, by omega, isTarget_iff.mpr ⟨j, ?_⟩, fun u hu hu' => ?_⟩
    · rw [landing?_elideLoads, hlands, Option.map_some]
    · rw [Alters, kind?_elideLoads]
      rcases Nat.lt_or_ge u t with hbefore | hbehind
      · exact hall u hu hbefore
      · obtain ⟨k, rfl⟩ := Nat.exists_eq_add_of_le hbehind
        exact alters_of_lt_skip (i := j) (by omega)

/-- What a path leaves behind where jumps go past loads, a path left behind before. -/
theorem reaches_of_elideLoads (hpath : p.elideLoads.1.Reaches i state) : p.Reaches i state := by
  induction hpath with
  | start => exact .start
  | @next i t state instruction _ hget hedge ih =>
    rw [elideLoads_getElem?] at hget
    obtain ⟨found, hfound, hmoved⟩ := Option.map_eq_some_iff.mp hget
    have hafter : state.after instruction = state.after found := by
      rw [← hmoved]
      split
      · cases found <;> rfl
      · rfl
    rw [hafter]
    cases hedge with
    | behind hget' hret =>
      refine ih.next hfound (.behind hfound fun value heq => ?_)
      rw [elideLoads_getElem?_of_keeps (by simp [kind?_of_getElem? hfound, heq, Instruction.kind]),
        hfound, heq] at hget'
      exact hret value (Option.some.inj hget').symm
    | landing hlands =>
      rw [landing?_elideLoads] at hlands
      obtain ⟨t, ht, rfl⟩ := Option.map_eq_some_iff.mp hlands
      have hjump : found.kind = .jump :=
        Option.some.inj ((kind?_of_getElem? hfound).symm.trans (kind?_of_landing ht))
      have hkeeps : found.kind.alters = false := by rw [hjump]; rfl
      have hpath := ih.next hfound (.landing ht)
      rw [RegisterState.after_of_keeps hkeeps] at hpath ⊢
      exact ih.skip hpath

theorem tidy_elideLoads (h : p.Tidy) : p.elideLoads.1.Tidy where
  toShaped := shaped_elideLoads h.toShaped
  determined htest ha hb := h.determined ((p.kind?_elideLoads _).symm.trans htest)
    (reaches_of_elideLoads ha) (reaches_of_elideLoads hb)

theorem getElem?_of_elideLoads (hget : p.elideLoads.1[i]? = some instruction)
    (hjump : instruction.kind ≠ .jump) : p[i]? = some instruction := by
  rw [← elideLoads_getElem?_of_keeps, hget]
  rw [← kind?_elideLoads, kind?_of_getElem? hget]
  exact fun heq => hjump (Option.some.inj heq)

theorem compact_elideLoads (h : p.Compact) : p.elideLoads.1.Compact := fun hload hmod =>
  h (getElem?_of_elideLoads hload nofun) (getElem?_of_elideLoads hmod nofun)

/-- No jump lands on instructions that calculate what the register holds already. -/
def Elided (p : Program) : Prop :=
  ∀ {i t state}, p.landing? i = some t → p.Reaches i state →
    state.redundantLength? (p.calculation t) = none

theorem elideLoads_eq_self (h : p.Shaped) (helided : p.Elided) : p.elideLoads = (p, 0) := by
  refine p.lowers_elideLoads.pair_eq ?_
  simp only [elideLoads]
  refine countWhere_eq_zero fun i instruction hget => ?_
  cases hpast : pastLoads? p p.length (Analysis.of p) instruction i with
  | none => rfl
  | some place =>
    obtain ⟨on, offset, t, known, length, rfl, ht, hstate, hlength, -⟩ := pastLoads?_eq_some hpast
    have hlands := landing?_eq_some_iff.mpr ⟨on, offset, hget, ht⟩
    obtain ⟨state, hpath⟩ := reachable_iff_reaches.mp (h.reachable (keeps_of_landing hlands))
    obtain rfl := hpath.eq_of_state? hstate (RegisterState.isKnown_of_redundantLength? hlength)
    rw [← calculation, helided hlands hpath] at hlength
    cases hlength

/-- Past what a jump goes past, no calculation starts the register anew. -/
theorem elided_elideLoads (h : p.Tidy) : p.elideLoads.1.Elided := by
  intro i t' state hlands hpath
  rw [landing?_elideLoads] at hlands
  obtain ⟨t, ht, rfl⟩ := Option.map_eq_some_iff.mp hlands
  rw [calculation_elideLoads]
  have hpath' := reaches_of_elideLoads hpath
  have hstate := h.state?_of_keeps (keeps_of_landing ht) (.landing ht) hpath'
  cases hskip : p.skip i t with
  | zero =>
    rw [Nat.add_zero]
    by_contra hne
    obtain ⟨length, hlength⟩ := Option.ne_none_iff_exists'.mp hne
    have hpos := RegisterState.redundantLength?_pos hlength
    rw [skip, hstate, Option.bind_some, hlength, Option.getD_some] at hskip
    omega
  | succ last =>
    have halters : p.Alters (t + last) := alters_of_lt_skip (i := i) (by omega)
    exact RegisterState.redundantLength?_eq_none (h.arith_of_mem_run (p.calculation_prefix _)
      (fun _ => alters_of_mem_calculation) (h.ne_reset halters))

/-- Where all landings stay, a removal keeps the calculations on which jumps land. -/
theorem Trims.elided (htrims : p.Trims removed) (h : p.Tidy) (helided : p.Elided)
    (hstay : ∀ {i t}, p.landing? i = some t → removed[t]? ≠ some true) :
    (p.remove removed).Elided := by
  intro j t' state hlands hpath
  obtain ⟨i, t, hkept, rfl, ht, rfl⟩ := exists_landing_of_remove htrims.length h.valid hlands
  rw [htrims.calculation_remove (hstay ht)]
  exact helided ht (htrims.reaches_of_remove h.valid hkept hpath)

end Program

end PluralForms
