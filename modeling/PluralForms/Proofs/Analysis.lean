import PluralForms.Optimizer.Analysis
import PluralForms.Proofs.Paths

/-! The register analysis is sound and exact. The entries that `solve` leaves behind are closed
under the control flow, as each place whose entry changes waits to be visited, and no entry changes
more than twice; and what they tell is borne out by paths. So the analysis merges the states of all
paths to a place, in whatever order the search takes the places, and whenever a run comes to an
instruction, the state there describes the register. -/

namespace PluralForms

open Relation

/-! ### Control flow -/

/-- A step goes to a successor of the instruction, and changes the register as the instruction
does. -/
theorem Machine.step_next {program : Program} {n : Int64} {s s' : Machine.State}
    (h : Machine.step program n s = .next s') :
    ∃ instruction, program[s.index]? = some instruction ∧
      s'.index ∈ instruction.successors program.length s.index ∧
      s'.register = instruction.register n s.register := by
  cases hi : program[s.index]? with
  | none =>
    rw [step_end (List.getElem?_eq_none_iff.mp hi)] at h
    simp at h
  | some instruction =>
    refine ⟨instruction, rfl, ?_⟩
    cases instruction with
    | ret v =>
      rw [step_ret hi] at h
      simp at h
    | jump on offset =>
      rw [step_jump hi] at h
      obtain rfl := Step.next.inj h
      refine ⟨?_, rfl⟩
      simp only [Instruction.successors, Instruction.jumpIndex_eq on]
      split <;> simp
    | test comparison operand =>
      rw [step_test hi] at h
      obtain rfl := Step.next.inj h
      exact ⟨List.mem_singleton_self _, rfl⟩
    | load _ | arith _ _ | loadMod _ =>
      rw [step_alter hi rfl] at h
      obtain rfl := Step.next.inj h
      exact ⟨List.mem_singleton_self _, rfl⟩

namespace Analysis

variable {program : Program} {entries entries' : Entries} {pending : List Nat}
  {search search' : List Nat × Entries} {incoming state : RegisterState} {index target i : Nat}

/-- What is known at the places to which control passes from `index` is no more than what is known
after the instruction there. -/
def ClosedAt (program : Program) (entries : Entries) (index : Nat) : Prop :=
  ∀ state instruction, stateIn entries index = some state → program[index]? = some instruction →
    ∀ target ∈ instruction.successors program.length index, target < program.length →
      ∃ known, stateIn entries target = some known ∧ (state.after instruction).Refines known

/-! ### The search -/

/-- How often an entry can still change. -/
def slack : Option RegisterState → Nat
  | none => 2
  | some (.known _) => 1
  | some .unknown => 0

/-- How many changes a list of entries leaves. -/
def totalSlack : List (Option RegisterState) → Nat
  | [] => 0
  | entry :: rest => slack entry + totalSlack rest

def Entries.slack (entries : Entries) : Nat := totalSlack entries.toList

theorem totalSlack_set {entries : List (Option RegisterState)} {i : Nat}
    {old : Option RegisterState} (h : entries[i]? = some old) (new : Option RegisterState) :
    totalSlack (entries.set i new) + slack old = totalSlack entries + slack new := by
  induction entries generalizing i with
  | nil => simp at h
  | cons first rest ih =>
    cases i with
    | zero =>
      obtain rfl : first = old := by simpa using h
      simp only [List.set_cons_zero, totalSlack]
      omega
    | succ i =>
      have hrest : rest[i]? = some old := by simpa using h
      have := ih hrest
      simp only [List.set_cons_succ, totalSlack]
      omega

/-- A search goes on from `search` to `search'`: nothing that is pending or known is lost, each
place with a changed entry is pending, and each change uses up slack. -/
structure Grows (search search' : List Nat × Entries) : Prop where
  size : search'.2.size = search.2.size
  pending : ∀ i ∈ search.1, i ∈ search'.1
  entry : ∀ i state, stateIn search.2 i = some state →
    ∃ state', stateIn search'.2 i = some state' ∧ state.Refines state'
  changed : ∀ i, i ∉ search'.1 → stateIn search'.2 i = stateIn search.2 i
  slack : search'.1.length + search'.2.slack ≤ search.1.length + search.2.slack

theorem Grows.refl (search : List Nat × Entries) : Grows search search :=
  ⟨rfl, fun _ h => h, fun _ state h => ⟨state, h, .refl state⟩, fun _ _ => rfl, le_refl _⟩

theorem Grows.trans {a b c : List Nat × Entries} (hab : Grows a b) (hbc : Grows b c) :
    Grows a c where
  size := hbc.size.trans hab.size
  pending i hi := hbc.pending i (hab.pending i hi)
  entry i state h := by
    obtain ⟨state₁, h₁, hr₁⟩ := hab.entry i state h
    obtain ⟨state₂, h₂, hr₂⟩ := hbc.entry i state₁ h₁
    exact ⟨state₂, h₂, hr₁.trans hr₂⟩
  changed i hi :=
    (hbc.changed i hi).trans (hab.changed i fun h => hi (hbc.pending i h))
  slack := hbc.slack.trans hab.slack

theorem stateIn_set (h : target < entries.size) (state : RegisterState) (i : Nat) :
    stateIn (entries.setIfInBounds target (some state)) i =
      if i = target then some state else stateIn entries i := by
  by_cases hi : target = i
  · subst hi
    simp [stateIn, h]
  · simp [stateIn, hi, Ne.symm hi]

/-- A visit that changes an entry joins it with what comes in. -/
theorem join?_spec {old : Option RegisterState} {state : RegisterState}
    (h : join? incoming old = some state) :
    incoming.Refines state ∧ (∀ known, old = some known → known.Refines state) ∧
      slack (some state) + 1 ≤ slack old := by
  match old with
  | none =>
    obtain rfl := Option.some.inj h
    refine ⟨.refl _, by simp, ?_⟩
    cases incoming <;> simp [slack]
  | some .unknown => simp [join?] at h
  | some (.known operators) =>
    simp only [join?, Option.ite_none_left_eq_some] at h
    obtain rfl := Option.some.inj h.2
    exact ⟨.inl rfl, fun _ _ => .inl rfl, le_refl _⟩

/-- A visit that changes no entry finds that nothing new comes in. -/
theorem join?_eq_none {old : Option RegisterState} (h : join? incoming old = none) :
    ∃ known, old = some known ∧ incoming.Refines known := by
  match old with
  | none => simp [join?] at h
  | some .unknown => exact ⟨_, rfl, .inl rfl⟩
  | some (.known operators) =>
    simp only [join?, ite_eq_left_iff, reduceCtorEq, imp_false, Decidable.not_not] at h
    exact ⟨_, rfl, .inr h⟩

theorem visit_grows (incoming : RegisterState) (search : List Nat × Entries) (target : Nat) :
    Grows search (visit incoming search target) := by
  obtain ⟨pending, entries⟩ := search
  simp only [visit]
  split
  · next state hjoin =>
    obtain ⟨old, hold, hjoin⟩ := Option.bind_eq_some_iff.mp hjoin
    obtain ⟨-, hknown, hslack⟩ := join?_spec hjoin
    have hlt : target < entries.size := (Array.getElem?_eq_some_iff.mp hold).1
    refine ⟨by simp, fun i hi => List.mem_cons_of_mem _ hi, fun i known hi => ?_,
      fun i hi => ?_, ?_⟩
    · rw [stateIn_set hlt]
      split
      · next h =>
        subst h
        exact ⟨state, rfl, hknown known (by simpa [stateIn, hold] using hi)⟩
      · exact ⟨known, hi, .refl known⟩
    · have hne : i ≠ target := fun h => hi (h ▸ List.mem_cons_self)
      simp [stateIn_set hlt, hne]
    · have hget : entries.toList[target]? = some old := by simpa using hold
      have hsum := totalSlack_set hget (some state)
      simp only [Entries.slack, Array.toList_setIfInBounds, List.length_cons]
      omega
  · exact .refl _

/-- After a visit the entry of the target covers what came in. -/
theorem visit_covers (incoming : RegisterState) (search : List Nat × Entries)
    (h : target < search.2.size) :
    ∃ known, stateIn (visit incoming search target).2 target = some known ∧
      incoming.Refines known := by
  obtain ⟨pending, entries⟩ := search
  have hget : entries[target]? = some entries[target] := Array.getElem?_eq_getElem h
  simp only [visit]
  split
  · next state hjoin =>
    obtain ⟨old, -, hjoin⟩ := Option.bind_eq_some_iff.mp hjoin
    exact ⟨state, by simp [stateIn_set h], (join?_spec hjoin).1⟩
  · next hjoin =>
    rw [hget, Option.bind_some] at hjoin
    obtain ⟨known, hold, hr⟩ := join?_eq_none hjoin
    exact ⟨known, by simp [stateIn, hget, hold], hr⟩

theorem foldl_visit_grows (incoming : RegisterState) (targets : List Nat)
    (search : List Nat × Entries) : Grows search (targets.foldl (visit incoming) search) := by
  induction targets generalizing search with
  | nil => exact .refl search
  | cons target targets ih => exact (visit_grows incoming search target).trans (ih _)

theorem foldl_visit_covers {targets : List Nat} (search : List Nat × Entries)
    (ht : target ∈ targets) (h : target < search.2.size) :
    ∃ known, stateIn (targets.foldl (visit incoming) search).2 target = some known ∧
      incoming.Refines known := by
  induction targets generalizing search with
  | nil => simp at ht
  | cons first targets ih =>
    have hgrows := visit_grows incoming search first
    rcases List.mem_cons.mp ht with rfl | ht
    · obtain ⟨known, hknown, hr⟩ := visit_covers incoming search h
      obtain ⟨known', hknown', hr'⟩ :=
        (foldl_visit_grows incoming targets _).entry _ _ hknown
      exact ⟨known', hknown', hr.trans hr'⟩
    · exact ih _ ht (hgrows.size ▸ h)

/-- One turn of the search closes the place that it takes from the pending ones. -/
theorem closedAt_of_visits {state : RegisterState} {instruction : Instruction}
    (hsize : entries.size = program.length)
    (hclosed : ∀ i, i ∉ index :: pending → ClosedAt program entries i)
    (hstate : stateIn entries index = some state) (hinst : program[index]? = some instruction)
    {search : List Nat × Entries}
    (hsearch : search = (instruction.successors program.length index).foldl
      (visit (state.after instruction)) (pending, entries)) :
    ∀ i, i ∉ search.1 → ClosedAt program search.2 i := by
  have hgrows : Grows (pending, entries) search :=
    hsearch ▸ foldl_visit_grows _ _ _
  intro i hi state' instruction' hstate' hinst' target ht hlt
  rw [hgrows.changed i hi] at hstate'
  by_cases hii : i = index
  · subst hii
    obtain rfl := Option.some.inj (hstate'.symm.trans hstate)
    obtain rfl := Option.some.inj (hinst'.symm.trans hinst)
    exact hsearch ▸ foldl_visit_covers _ ht (hsize ▸ hlt)
  · have hpending : i ∉ index :: pending := by
      simp only [List.mem_cons, not_or]
      exact ⟨hii, fun h => hi (hgrows.pending i h)⟩
    obtain ⟨known, hknown, hr⟩ := hclosed i hpending _ _ hstate' hinst' target ht hlt
    obtain ⟨known', hknown', hr'⟩ := hgrows.entry _ _ hknown
    exact ⟨known', hknown', hr.trans hr'⟩

theorem totalSlack_replicate (size : Nat) : totalSlack (List.replicate size none) = 2 * size := by
  induction size with
  | zero => rfl
  | succ size ih =>
    simp only [List.replicate_succ, totalSlack, slack, ih]
    omega

theorem stateIn_replicate (size i : Nat) : stateIn (Array.replicate size none) i = none := by
  simp only [stateIn, Array.getElem?_replicate]
  split <;> rfl

/-! ### Justified entries -/

/-- Paths bear out all that is known. -/
def Justified (program : Program) (entries : Entries) : Prop :=
  ∀ i state, stateIn entries i = some state → program.Justifies i state

theorem justified_visit (hentries : Justified program search.2)
    (hincoming : program.Justifies target incoming) :
    Justified program (visit incoming search target).2 := by
  obtain ⟨pending, entries⟩ := search
  simp only [visit]
  split
  · next state hjoin =>
    obtain ⟨old, hold, hjoin⟩ := Option.bind_eq_some_iff.mp hjoin
    have hlt : target < entries.size := (Array.getElem?_eq_some_iff.mp hold).1
    intro i known hknown
    rw [stateIn_set hlt] at hknown
    split at hknown
    · next h =>
      subst h
      obtain rfl := Option.some.inj hknown
      match old with
      | none =>
        obtain rfl := Option.some.inj hjoin
        exact hincoming
      | some .unknown => simp [join?] at hjoin
      | some (.known operators) =>
        simp only [join?, Option.ite_none_left_eq_some] at hjoin
        obtain ⟨hne, heq⟩ := hjoin
        obtain rfl := Option.some.inj heq
        exact (hentries i _ (by simp [stateIn, hold])).merge hincoming hne
    · exact hentries i known hknown
  · exact hentries

theorem justified_foldl_visit {targets : List Nat} (hentries : Justified program search.2)
    (hincoming : ∀ target ∈ targets, target < program.length → program.Justifies target incoming)
    (hsize : search.2.size = program.length) :
    Justified program (targets.foldl (visit incoming) search).2 := by
  induction targets generalizing search with
  | nil => exact hentries
  | cons first targets ih =>
    have hsize' := (visit_grows incoming search first).size.trans hsize
    refine ih ?_ (fun target hmem => hincoming target (List.mem_cons_of_mem _ hmem)) hsize'
    by_cases hlt : first < program.length
    · exact justified_visit hentries (hincoming first List.mem_cons_self hlt)
    · -- A place past the last instruction has no entry.
      have hnone : search.2[first]? = none := Array.getElem?_eq_none (by omega)
      simpa [visit, hnone] using hentries

/-! ### The search in any order -/

/-- The search after control has passed on from the place `index`. -/
def passOn (program : Program) (index : Nat) (search : List Nat × Entries) : List Nat × Entries :=
  match stateIn search.2 index, program[index]? with
  | some state, some instruction =>
    (instruction.successors program.length index).foldl (visit (state.after instruction)) search
  | _, _ => search

/-- A turn of the search: control passes on from one of the pending places, and the places that come
to be pending are put among the others in any order. -/
def Turn (program : Program) (search search' : List Nat × Entries) : Prop :=
  ∃ index rest, search.1.Perm (index :: rest) ∧
    search'.1.Perm (passOn program index (rest, search.2)).1 ∧
    search'.2 = (passOn program index (rest, search.2)).2

theorem turn_passOn (p : Program) (index : Nat) (rest : List Nat) (entries : Entries) :
    Turn p (index :: rest, entries) (passOn p index (rest, entries)) :=
  ⟨index, rest, .rfl, .rfl, rfl⟩

/-- The search before its first turn. -/
def firstSearch (program : Program) : List Nat × Entries :=
  ([0], (Array.replicate program.length none).setIfInBounds 0 (some .initial))

/-- What every turn of the search keeps. -/
structure Searching (program : Program) (search : List Nat × Entries) : Prop where
  size : search.2.size = program.length
  start : 0 < program.length →
    ∃ known, stateIn search.2 0 = some known ∧ RegisterState.initial.Refines known
  closed : ∀ i, i ∉ search.1 → ClosedAt program search.2 i
  justified : Justified program search.2

theorem passOn_grows (program : Program) (index : Nat) (search : List Nat × Entries) :
    Grows search (passOn program index search) := by
  rw [passOn]
  split
  · exact foldl_visit_grows _ _ _
  · exact .refl search

theorem searching_passOn (hsearch : Searching program (index :: pending, entries)) :
    Searching program (passOn program index (pending, entries)) := by
  have hgrows := passOn_grows program index (pending, entries)
  refine ⟨hgrows.size.trans hsearch.size, fun hpos => ?_, ?_, ?_⟩
  · obtain ⟨known, hknown, hr⟩ := hsearch.start hpos
    obtain ⟨known', hknown', hr'⟩ := hgrows.entry 0 known hknown
    exact ⟨known', hknown', hr.trans hr'⟩
  · rw [passOn]
    split
    · next state instruction hstate hinst =>
      exact closedAt_of_visits hsearch.size hsearch.closed hstate hinst rfl
    · next hnone =>
      -- No path leads to the place, or there is no instruction: it is closed as it is.
      intro i hi
      by_cases hindex : i = index
      · subst hindex
        intro state instruction hstate hinst
        exact absurd hinst (hnone state instruction hstate)
      · exact hsearch.closed i (by simp [hindex, hi])
  · rw [passOn]
    split
    · next state instruction hstate hinst =>
      refine justified_foldl_visit hsearch.justified (fun target hmem hlt => ?_) hsearch.size
      exact (hsearch.justified index state hstate).next hinst
        (Program.edge_of_mem_successors hinst hmem hlt)
    · exact hsearch.justified

theorem Searching.perm (hsearch : Searching program search) (hpending : search'.1.Perm search.1)
    (hentries : search'.2 = search.2) : Searching program search' := by
  refine ⟨hentries ▸ hsearch.size, hentries ▸ hsearch.start, fun i hi => ?_,
    hentries ▸ hsearch.justified⟩
  rw [hentries]
  exact hsearch.closed i fun hmem => hi (hpending.mem_iff.mpr hmem)

theorem Searching.turn (hsearch : Searching program search) (hturn : Turn program search search') :
    Searching program search' := by
  obtain ⟨index, rest, hpending, hpending', hentries⟩ := hturn
  have hmoved : Searching program (index :: rest, search.2) := hsearch.perm hpending.symm rfl
  exact (searching_passOn hmoved).perm hpending' hentries

/-- Each turn takes a place from the pending ones, or uses up the slack of the entries. -/
theorem Turn.slack (hturn : Turn program search search') :
    search'.1.length + search'.2.slack + 1 ≤ search.1.length + search.2.slack := by
  obtain ⟨index, rest, hpending, hpending', hentries⟩ := hturn
  have hslack := (passOn_grows program index (rest, search.2)).slack
  rw [hpending.length_eq, hpending'.length_eq, hentries, List.length_cons]
  simp only at hslack
  omega

theorem slack_firstSearch (program : Program) :
    (firstSearch program).1.length + (firstSearch program).2.slack ≤ 2 * program.length + 1 := by
  have hreplicate := totalSlack_replicate program.length
  simp only [firstSearch, List.length_singleton, Entries.slack, Array.toList_setIfInBounds,
    Array.toList_replicate]
  cases hlength : program.length with
  | zero => simp [totalSlack]
  | succ size =>
    have hget : (List.replicate (size + 1) (none : Option RegisterState))[0]? = some none := rfl
    have hset := totalSlack_set hget (some .initial)
    rw [hlength] at hreplicate
    simp only [slack, RegisterState.initial] at hset ⊢
    omega

theorem searching_firstSearch (program : Program) : Searching program (firstSearch program) := by
  have hentry : ∀ i state, stateIn (firstSearch program).2 i = some state →
      i = 0 ∧ state = .initial := by
    intro i state hstate
    by_cases hpos : 0 < program.length
    · rw [firstSearch, stateIn_set (by simpa using hpos)] at hstate
      split at hstate
      · next h => exact ⟨h, (Option.some.inj hstate).symm⟩
      · simp [stateIn_replicate] at hstate
    · obtain rfl : program = [] := List.length_eq_zero_iff.mp (by omega)
      simp [firstSearch, stateIn] at hstate
  refine ⟨by simp [firstSearch], fun hpos => ?_, fun i hi state _ hstate => ?_,
    fun i state hstate => ?_⟩
  · refine ⟨.initial, ?_, .refl _⟩
    rw [firstSearch, stateIn_set (by simpa using hpos), if_pos rfl]
  · exact absurd (hentry i state hstate).1 (by simpa [firstSearch] using hi)
  · obtain ⟨rfl, rfl⟩ := hentry i state hstate
    exact .start

/-! ### The solution -/

/-- Where a path leads, its state is covered, and all that is known is borne out by paths. -/
structure Exact (program : Program) (entries : Entries) : Prop where
  size : entries.size = program.length
  covers : ∀ i state, program.Reaches i state → i < program.length →
    ∃ known, stateIn entries i = some known ∧ state.Refines known
  justified : Justified program entries

theorem Searching.exact (hsearch : Searching program search) (hdone : search.1 = []) :
    Exact program search.2 := by
  refine ⟨hsearch.size, fun i state hreaches => ?_, hsearch.justified⟩
  induction hreaches with
  | start => exact hsearch.start
  | @next i t state instruction _ hget hedge ih =>
    intro hlt
    obtain ⟨known, hknown, hr⟩ := ih (List.getElem?_eq_some_iff.mp hget).1
    obtain ⟨known', hknown', hr'⟩ :=
      hsearch.closed i (by simp [hdone]) known instruction hknown hget
      t (Program.mem_successors_of_edge hget hedge) hlt
    exact ⟨known', hknown', (hr.after instruction).trans hr'⟩

theorem Exact.stateIn_eq_some_iff (h : Exact program entries) :
    stateIn entries i = some state ↔ i < program.length ∧ program.MergesTo i state := by
  have merges : ∀ known, stateIn entries i = some known → i < program.length ∧
      program.MergesTo i known := by
    intro known hknown
    have hlt : i < program.length := by
      by_contra hle
      have hnone : entries[i]? = none := Array.getElem?_eq_none (by rw [h.size]; omega)
      simp [stateIn, hnone] at hknown
    refine ⟨hlt, h.justified i known hknown, fun left hleft => ?_⟩
    obtain ⟨known', hknown', hr⟩ := h.covers i left hleft hlt
    obtain rfl := Option.some.inj (hknown'.symm.trans hknown)
    exact hr
  refine ⟨merges state, fun ⟨hlt, hmerges⟩ => ?_⟩
  obtain ⟨left, hleft⟩ := Program.reachable_iff_reaches.mp hmerges.1.reachable
  obtain ⟨known, hknown, -⟩ := h.covers i left hleft hlt
  rw [hknown, (merges known hknown).2.unique hmerges]

/-- There is one solution. -/
theorem Exact.unique (h : Exact program entries) (h' : Exact program entries') :
    entries = entries' := by
  have hstate : ∀ i, stateIn entries i = stateIn entries' i := fun i =>
    Option.ext fun state => by rw [h.stateIn_eq_some_iff, h'.stateIn_eq_some_iff]
  refine Array.ext (h.size.trans h'.size.symm) fun i hi hi' => ?_
  simpa [stateIn, hi, hi'] using hstate i

/-- With enough fuel, the search ends when nothing is pending. -/
theorem searching_solveFrom {fuel : Nat} (hsearch : Searching program (pending, entries))
    (hfuel : pending.length + entries.slack ≤ fuel) :
    Searching program ([], solveFrom program.toArray fuel pending entries) := by
  induction fuel generalizing pending entries with
  | zero =>
    obtain rfl : pending = [] := List.length_eq_zero_iff.mp (by omega)
    exact hsearch
  | succ fuel ih =>
    cases pending with
    | nil => exact hsearch
    | cons index pending =>
      have hslack := (passOn_grows program index (pending, entries)).slack
      have hstep : solveFrom program.toArray (fuel + 1) (index :: pending) entries =
          solveFrom program.toArray fuel (passOn program index (pending, entries)).1
            (passOn program index (pending, entries)).2 := by
        simp only [solveFrom, passOn, List.getElem?_toArray, List.size_toArray]
        cases stateIn entries index <;> cases program[index]? <;> rfl
      rw [List.length_cons] at hfuel
      simp only at hslack
      rw [hstep]
      exact ih (searching_passOn hsearch) (by omega)

theorem searching_solve (program : Program) : Searching program ([], solve program) :=
  searching_solveFrom (searching_firstSearch program) (slack_firstSearch program)

theorem solve_exact (program : Program) : Exact program (solve program) :=
  (searching_solve program).exact rfl

/-- The analysis merges the states of all paths to a place. -/
theorem state?_eq_some_iff :
    (of program).state? i = some state ↔ i < program.length ∧ program.MergesTo i state :=
  (solve_exact program).stateIn_eq_some_iff

theorem isReachable_iff :
    (of program).isReachable i = true ↔ i < program.length ∧ program.Reachable i := by
  rw [isReachable, Option.isSome_iff_exists]
  constructor
  · rintro ⟨state, hstate⟩
    obtain ⟨hlt, hjustified, -⟩ := state?_eq_some_iff.mp hstate
    exact ⟨hlt, hjustified.reachable⟩
  · rintro ⟨hlt, hreachable⟩
    obtain ⟨left, hleft⟩ := Program.reachable_iff_reaches.mp hreachable
    obtain ⟨known, hknown, -⟩ := (solve_exact program).covers i left hleft hlt
    exact ⟨known, hknown⟩

/-! ### Soundness -/

/-- The analysis has a state that describes the register, unless the run is at its end. -/
def Sound (program : Program) (n : Int64) (s : Machine.State) : Prop :=
  s.index < program.length →
    ∃ state, (Analysis.of program).state? s.index = some state ∧ state.Describes n s.register

theorem sound_start (program : Program) (n : Int64) : Sound program n (.start n) := by
  intro h
  obtain ⟨known, hknown, hr⟩ := (solve_exact program).covers 0 _ .start h
  exact ⟨known, hknown, hr.describes rfl⟩

theorem sound_next {n : Int64} {s s' : Machine.State} (hs : Sound program n s)
    (h : (Machine.system program n).Next s s') : Sound program n s' := by
  intro hlt
  obtain ⟨instruction, hinst, hsucc, hregister⟩ := Machine.step_next (Machine.next_iff.mp h)
  obtain ⟨state, hstate, hd⟩ := hs (List.getElem?_eq_some_iff.mp hinst).1
  obtain ⟨known, hknown, hr⟩ :=
    (searching_solve program).closed s.index List.not_mem_nil state instruction hstate hinst _ hsucc
      hlt
  exact ⟨known, hknown, hr.describes (hregister ▸ RegisterState.describes_after hd instruction)⟩

/-- The analysis is sound in every state of a run that went through a sound one. -/
theorem sound_steps {n : Int64} {s s' : Machine.State} (hs : Sound program n s)
    (h : ReflTransGen (Machine.system program n).Next s s') : Sound program n s' := by
  induction h with
  | refl => exact hs
  | tail _ hn ih => exact sound_next ih hn

/-! ### The analysis as a whole -/

/-- Whenever a run comes to an instruction, the analysis has a state there, and the operators of a
known state give the register from the count. It has a state exactly where a path leads. On every
program the search ends within a number of turns that its length bounds, whichever of the pending
places it takes, and then it has found the entries. -/
theorem of_sound_and_exact (p : Program) :
    (∀ n s, ReflTransGen (Machine.system p n).Next (.start n) s → s.index < p.length →
      ∃ state, (of p).state? s.index = some state ∧
        ∀ chain, state.chain? = some chain → chain.apply n = s.register) ∧
    (∀ i, (of p).isReachable i = true ↔ i < p.length ∧ p.Reachable i) ∧
    ∀ (search : Nat → List Nat × Entries) (turns : Nat), search 0 = firstSearch p →
      (∀ k < turns, Turn p (search k) (search (k + 1))) →
      turns ≤ 2 * p.length + 1 ∧
        ((∃ next, Turn p (search turns) next) ∨
          (search turns).1 = [] ∧ (search turns).2 = (of p).entries) := by
  refine ⟨fun n s hs hlt => ?_, fun i => isReachable_iff, fun search turns hfirst hturns => ?_⟩
  · obtain ⟨state, hstate, hdescribes⟩ := sound_steps (sound_start p n) hs hlt
    refine ⟨state, hstate, fun chain hchain => ?_⟩
    cases state with
    | known operators =>
      obtain rfl := Option.some.inj hchain
      exact hdescribes.symm
    | unknown => cases hchain
  · have hkept : ∀ k ≤ turns, Searching p (search k) ∧
        k + ((search k).1.length + (search k).2.slack) ≤ 2 * p.length + 1 := by
      intro k
      induction k with
      | zero =>
        rw [hfirst, Nat.zero_add]
        exact fun _ => ⟨searching_firstSearch p, slack_firstSearch p⟩
      | succ k ih =>
        intro hk
        obtain ⟨hsearching, hbound⟩ := ih (Nat.le_of_lt hk)
        have hslack := (hturns k hk).slack
        exact ⟨hsearching.turn (hturns k hk), by omega⟩
    obtain ⟨hsearching, hbound⟩ := hkept turns le_rfl
    refine ⟨by omega, ?_⟩
    cases hpending : (search turns).1 with
    | nil => exact .inr ⟨rfl, (hsearching.exact hpending).unique (solve_exact p)⟩
    | cons index rest =>
      have hturn := turn_passOn p index rest (search turns).2
      rw [← hpending] at hturn
      exact .inl ⟨_, hturn⟩

theorem of_sound_and_exact_loop :
    (∃ state, (of [.load 0, .arith .mod 10, .test .eq 1, .jump true (-4), .ret 7]).state? 2 =
        some state ∧ ∀ chain, state.chain? = some chain → chain.apply 21 = 1) ∧
      Program.Reachable [.load 0, .arith .mod 10, .test .eq 1, .jump true (-4), .ret 7] 4 ∧
      ∃ next, Turn [.load 0, .arith .mod 10, .test .eq 1, .jump true (-4), .ret 7]
        (passOn [.load 0, .arith .mod 10, .test .eq 1, .jump true (-4), .ret 7] 0
          ([], (firstSearch [.load 0, .arith .mod 10, .test .eq 1, .jump true (-4), .ret 7]).2))
        next := by
  obtain ⟨hsound, hreachable, hends⟩ :=
    of_sound_and_exact [.load 0, .arith .mod 10, .test .eq 1, .jump true (-4), .ret 7]
  refine ⟨?_, ((hreachable 4).mp (by decide)).2, ?_⟩
  · refine hsound 21 ⟨2, 1, false⟩ (.tail (b := ⟨1, 21, false⟩) (.single ?_) ?_) (by decide)
    · exact Machine.next_iff.mpr rfl
    · exact Machine.next_iff.mpr rfl
  · have hturn := turn_passOn
      [.load 0, .arith .mod 10, .test .eq 1, .jump true (-4), .ret 7] 0 []
      (firstSearch [.load 0, .arith .mod 10, .test .eq 1, .jump true (-4), .ret 7]).2
    obtain ⟨-, hnext | ⟨hdone, -⟩⟩ := hends (fun | 0 => firstSearch _ | _ => _) 1 rfl fun k hk => by
      obtain rfl : k = 0 := by omega
      exact hturn
    · exact hnext
    · exact absurd hdone (by decide)

end Analysis

end PluralForms
