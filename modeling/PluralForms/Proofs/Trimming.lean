import PluralForms.Proofs.Shape

/-! Tidy programs, in which all paths to a test leave the same state behind, and how the passes trim
them. Where the register is not started anew, no part of a calculation is redundant; so each pass
that removes instructions takes the start of a calculation away from all paths that come to it. The
paths to the other instructions leave the states behind that they left before. -/

namespace PluralForms

namespace RegisterState

/-- An operator more makes another state, and no calculation leads back. -/
theorem longestTo?_eq_none {goal current : List (Arithmetic × Int64)} {run : Program}
    (hrun : ∀ instruction ∈ run, instruction.kind = .arith) (hle : goal.length ≤ current.length) :
    longestTo? (.known goal) (.known current) run = none := by
  induction run generalizing current with
  | nil => rfl
  | cons instruction rest ih =>
    obtain ⟨hfirst, hrest⟩ := List.forall_mem_cons.mp hrun
    cases instruction with
    | arith op operand =>
      have hne : known ((op, operand) :: current) ≠ known goal := by
        intro heq
        have hlength := congrArg List.length (known.inj heq)
        rw [List.length_cons] at hlength
        omega
      rw [longestTo?, after, ih hrest (hle.trans (Nat.le_succ _))]
      exact if_neg hne
    | load | loadMod | ret | jump | test => cases hfirst

theorem redundantLength?_eq_none {state : RegisterState} {run : Program}
    (hrun : ∀ instruction ∈ run, instruction.kind = .arith) :
    state.redundantLength? run = none := by
  cases state with
  | known operators =>
    exact (if_pos rfl).trans (longestTo?_eq_none hrun le_rfl)
  | unknown => rfl

theorem after_of_keeps {instruction : Instruction} (h : instruction.kind.alters = false)
    (state : RegisterState) : state.after instruction = state := by
  cases instruction with
  | load | loadMod | arith => cases h
  | ret | jump | test => rfl

end RegisterState

namespace Program

open Analysis Machine

variable {p q : Program} {removed : List Bool} {i j t length : Nat} {kind : Kind}
  {state a b : RegisterState} {instruction : Instruction} {run : Program}

/-! ### Paths along calculations -/

theorem Reaches.alters (h : p.Reaches i state) (hget : p[i]? = some instruction)
    (halters : instruction.altersRegister = true) :
    p.Reaches (i + 1) (state.after instruction) :=
  h.next hget (Alters.edge (alters_iff.mpr ⟨instruction, hget, halters⟩))

theorem Reaches.along (h : p.Reaches t state) (hrun : run <+: p.drop t)
    (halters : ∀ instruction ∈ run, instruction.altersRegister = true) :
    p.Reaches (t + run.length) (run.foldl RegisterState.after state) := by
  induction run generalizing t state with
  | nil => exact h
  | cons first rest ih =>
    obtain ⟨hfirst, hrest⟩ := List.forall_mem_cons.mp halters
    have hpath := ih (h.alters (getElem?_of_cons_part hrun) hfirst) (prefix_of_cons hrun) hrest
    rwa [Nat.add_assoc, Nat.add_comm 1] at hpath

theorem Reaches.redundant (h : p.Reaches t state) (hrun : run <+: p.drop t)
    (halters : ∀ instruction ∈ run, instruction.altersRegister = true)
    (hlength : state.redundantLength? run = some length) : p.Reaches (t + length) state := by
  have hpath := h.along ((List.take_prefix length run).trans hrun) fun instruction hmem =>
    halters instruction (List.mem_of_mem_take hmem)
  rwa [List.length_take_of_le (RegisterState.redundantLength?_le hlength),
    RegisterState.redundantLength?_foldl hlength] at hpath

/-- Where the analysis knows a state, each path leaves it behind. -/
theorem Reaches.eq_of_state? {known : RegisterState} (h : p.Reaches i state)
    (hstate : (Analysis.of p).state? i = some known) (hknown : known.isKnown = true) :
    state = known := by
  obtain ⟨-, -, hcovers⟩ := state?_eq_some_iff.mp hstate
  rcases hcovers state h with rfl | rfl
  · cases hknown
  · rfl

namespace Shaped

variable (h : p.Shaped)

include h

theorem arith_of_mem_run (hrun : run <+: p.drop t)
    (halters : ∀ instruction ∈ run, instruction.altersRegister = true)
    (hfirst : p.kind? t ≠ some .reset) : ∀ instruction ∈ run, instruction.kind = .arith := by
  induction run generalizing t with
  | nil => simp
  | cons first rest ih =>
    obtain ⟨hfirstAlters, hrest⟩ := List.forall_mem_cons.mp halters
    have hget := getElem?_of_cons_part hrun
    refine List.forall_mem_cons.mpr ⟨?_, ih (prefix_of_cons hrun) hrest
      (h.ne_reset (alters_iff.mpr ⟨first, hget, hfirstAlters⟩))⟩
    rw [kind?_of_getElem? hget] at hfirst
    cases first with
    | arith => rfl
    | load | loadMod => exact absurd rfl hfirst
    | ret | jump | test => cases hfirstAlters

/-- A calculation with a redundant part starts the register anew. -/
theorem reset_of_redundant (hrun : run <+: p.drop t)
    (halters : ∀ instruction ∈ run, instruction.altersRegister = true)
    (hlength : state.redundantLength? run = some length) : p.kind? t = some .reset := by
  by_contra hne
  rw [RegisterState.redundantLength?_eq_none (h.arith_of_mem_run hrun halters hne)] at hlength
  cases hlength

theorem reset_of_cut (hcut : Cut p t length) : p.kind? t = some .reset := by
  obtain ⟨state, run, -, hlength, hrun, halters, -⟩ := hcut.spec
  exact h.reset_of_redundant hrun halters hlength

end Shaped

/-! ### Tidy programs -/

/-- The program has the shape, and all paths to a test leave the same state behind. -/
structure Tidy (p : Program) : Prop extends Shaped p where
  determined : ∀ {i a b}, p.kind? i = some .test → p.Reaches i a → p.Reaches i b → a = b

namespace Tidy

variable (h : p.Tidy)

include h

/-- What a path leaves behind at a jump, it leaves behind at the test before it. -/
theorem reaches_of_jump (hjump : p.kind? (i + 1) = some .jump) (hpath : p.Reaches (i + 1) a) :
    p.kind? i = some .test ∧ p.Reaches i a := by
  cases hpath with
  | @next k _ state instruction hpath hget hedge =>
    obtain ⟨hk, htest⟩ := h.test_of_edge hedge hjump
    obtain rfl := Nat.succ.inj hk
    rw [kind?_of_getElem? hget] at htest
    have hkeeps : instruction.kind.alters = false := by rw [Option.some.inj htest]; rfl
    rw [RegisterState.after_of_keeps hkeeps]
    exact ⟨kind?_of_getElem? hget ▸ htest, hpath⟩

/-- All paths to an instruction from which control passes on, and which does not write the register,
leave the same state behind. -/
theorem unique_of_keeps (hkeeps : p.Keeps i) (hedge : p.Edge i t) (ha : p.Reaches i a)
    (hb : p.Reaches i b) : a = b := by
  obtain ⟨kind, hkind, hkeep⟩ := hkeeps
  cases kind with
  | reset | arith => cases hkeep
  | test => exact h.determined hkind ha hb
  | jump =>
    obtain ⟨j, rfl, htest⟩ := h.jumps hkind
    exact h.determined htest (h.reaches_of_jump hkind ha).2 (h.reaches_of_jump hkind hb).2
  | ret =>
    obtain ⟨instruction, hget, hret⟩ := kind?_eq_some_iff.mp hkind
    obtain ⟨value, rfl⟩ := Instruction.kind_eq_ret_iff.mp hret
    cases hedge with
    | behind hget' hne => exact absurd (Option.some.inj (hget.symm.trans hget')).symm (hne value)
    | landing hlands =>
      rw [kind?_of_landing hlands] at hkind
      cases hkind

theorem state?_of_keeps (hkeeps : p.Keeps i) (hedge : p.Edge i t) (hpath : p.Reaches i state) :
    (Analysis.of p).state? i = some state :=
  state?_eq_some_iff.mpr ⟨hkeeps.lt, hpath.justifies, fun _ hleft =>
    .inr (h.unique_of_keeps hkeeps hedge hpath hleft)⟩

end Tidy

/-! ### Trims -/

/-- Control passes on from an instruction that stays to the new index of a place where it went
before. -/
theorem exists_edge_of_remove (hlen : removed.length = p.length) (hvalid : p.invalidJump? = none)
    (hkept : removed[i]? = some false) (hedge : (p.remove removed).Edge (place removed i) j) :
    ∃ t, p.Edge i t ∧ place removed t = j := by
  cases hedge with
  | behind hget hret =>
    rw [remove_getElem? hlen hkept] at hget
    obtain ⟨instruction, hinst, rfl⟩ := Option.map_eq_some_iff.mp hget
    refine ⟨i + 1, .behind hinst fun value heq => hret value ?_, place_succ_of_kept hkept⟩
    rw [heq, relocate_of_not_jump rfl]
  | landing hlands =>
    obtain ⟨i', t, hkept', hplace, hlands', rfl⟩ := exists_landing_of_remove hlen hvalid hlands
    obtain rfl := eq_of_place_eq hkept' hkept hplace
    exact ⟨t, .landing hlands', rfl⟩

/-- The paths after a removal leave behind what paths of a program `q` left before, if those lead to
each place at which control arrives, or to one in its stead that stays. -/
theorem exists_reaches_of_remove (hlen : removed.length = p.length) (hvalid : p.invalidJump? = none)
    (hstart : ∃ i, removed[i]? ≠ some true ∧ place removed i = 0 ∧ q.Reaches i .initial)
    (hnext : ∀ {i t state instruction}, removed[i]? = some false → q.Reaches i state →
      p[i]? = some instruction → p.Edge i t → ∃ u, removed[u]? ≠ some true ∧
        place removed u = place removed t ∧ q.Reaches u (state.after instruction))
    (hpath : (p.remove removed).Reaches j state) :
    ∃ i, removed[i]? ≠ some true ∧ place removed i = j ∧ q.Reaches i state := by
  induction hpath with
  | start => exact hstart
  | next _ hget hedge ih =>
    obtain ⟨i, hstays, rfl, hpath⟩ := ih
    have hlt := (List.getElem?_eq_some_iff.mp hget).1
    rw [length_remove hlen] at hlt
    have hkept := kept_of_not_gone hlen (lt_of_place_lt hlt) hstays
    rw [remove_getElem? hlen hkept] at hget
    obtain ⟨instruction, hinst, rfl⟩ := Option.map_eq_some_iff.mp hget
    obtain ⟨t, hedge', rfl⟩ := exists_edge_of_remove hlen hvalid hkept hedge
    rw [Instruction.after_relocate]
    exact hnext hkept hpath hinst hedge'

/-- What is removed are starts of calculations. A path that comes to one of them goes on to the
first instruction that stays, and leaves the same state behind there. -/
structure Trims (p : Program) (removed : List Bool) : Prop extends RemovesAltering p removed where
  stays : ∀ {i}, removed[i]? = some false → p.Alters i → removed[i + 1]? = some false
  pass : ∀ {t state}, removed[t]? = some true → p.Reaches t state →
    (t = 0 ∨ ∃ i, removed[i]? = some false ∧ p.Edge i t) →
    ∃ u, removed[u]? = some false ∧ place removed u = place removed t ∧ p.Reaches u state

namespace Trims

variable (h : p.Trims removed)

include h

/-- What a path leaves behind after the removal, a path left behind before. -/
theorem exists_reaches (hvalid : p.invalidJump? = none)
    (hpath : (p.remove removed).Reaches j state) :
    ∃ i, removed[i]? ≠ some true ∧ place removed i = j ∧ p.Reaches i state := by
  have stop : ∀ {t state}, p.Reaches t state →
      (t = 0 ∨ ∃ i, removed[i]? = some false ∧ p.Edge i t) →
      ∃ i, removed[i]? ≠ some true ∧ place removed i = place removed t ∧ p.Reaches i state := by
    intro t state hpath hfrom
    by_cases hgone : removed[t]? = some true
    · obtain ⟨u, hkept, hplace, hpath'⟩ := h.pass hgone hpath hfrom
      exact ⟨u, by simp [hkept], hplace, hpath'⟩
    · exact ⟨t, hgone, rfl, hpath⟩
  refine exists_reaches_of_remove h.length hvalid ?_
    (fun {i _ _ _} hkept hpath hget hedge => stop (hpath.next hget hedge) (.inr ⟨i, hkept, hedge⟩))
    hpath
  rw [← place_zero removed]
  exact stop .start (.inl rfl)

theorem reaches_of_remove (hvalid : p.invalidJump? = none) (hkept : removed[i]? = some false)
    (hpath : (p.remove removed).Reaches (place removed i) state) : p.Reaches i state := by
  obtain ⟨i', hstays, hplace, hpath'⟩ := h.exists_reaches hvalid hpath
  exact eq_of_place_eq_kept hkept hstays hplace ▸ hpath'

theorem tidy (htidy : p.Tidy) : (p.remove removed).Tidy where
  toShaped := h.shaped_remove htidy.toShaped
  determined := by
    intro j a b htest ha hb
    obtain ⟨i, hkept, rfl, htest'⟩ := exists_of_kind?_remove h.length htest
    exact htidy.determined htest' (h.reaches_of_remove htidy.valid hkept ha)
      (h.reaches_of_remove htidy.valid hkept hb)

/-- The paths to an instruction from which control passes on, and which does not write the register,
leave behind what they left before. -/
theorem reaches_remove (htidy : p.Tidy) (hkeeps : p.Keeps i) (hedge : p.Edge i t)
    (hpath : p.Reaches i state) : (p.remove removed).Reaches (place removed i) state := by
  have hkept := h.kept_of_keeps hkeeps
  have hreachable := (h.tidy htidy).reachable (h.keeps_remove hkeeps)
  obtain ⟨left, hleft⟩ := reachable_iff_reaches.mp hreachable
  rw [htidy.unique_of_keeps hkeeps hedge hpath (h.reaches_of_remove htidy.valid hkept hleft)]
  exact hleft

/-- Where a calculation starts the register anew, the paths leave behind what they left before. -/
theorem reaches_iff_of_reset (htidy : p.Tidy) (hkept : removed[t]? = some false)
    (hreset : p.kind? t = some .reset) :
    (p.remove removed).Reaches (place removed t) state ↔ p.Reaches t state := by
  refine ⟨h.reaches_of_remove htidy.valid hkept, fun hpath => ?_⟩
  cases hpath with
  | start =>
    rw [place_zero]
    exact .start
  | @next i _ state instruction hpath hget hedge =>
    have hkeeps := htidy.keeps_of_edge hedge hreset
    have hkept' := h.kept_of_keeps hkeeps
    have hget' : (p.remove removed)[place removed i]? =
        some (relocate removed p.length i instruction) := by
      rw [remove_getElem? h.length hkept', hget, Option.map_some]
    rw [← Instruction.after_relocate removed p.length i]
    exact (h.reaches_remove htidy hkeeps hedge hpath).next hget' (hedge.remove h.length hkept')

end Trims

end Program

end PluralForms
