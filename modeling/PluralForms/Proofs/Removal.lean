import PluralForms.Optimizer.Removal
import PluralForms.Proofs.Landing

/-! Removal of instructions. Each place of the program has a new index, and the instruction that
stays at a place does the same as before, with its landing at the new index of the old one. A
program follows the runs of another from which it arises by removal if the removed instructions can
be passed over. -/

namespace PluralForms

open Relation

namespace Program

variable {program : Program} {removed : List Bool} {i j index : Nat} {instruction : Instruction}

/-! ### New indices -/

/-- The new index of the place `index`: the number of instructions before it that stay. -/
def place (removed : List Bool) (index : Nat) : Nat := (removed.take index).count false

theorem place_zero (removed : List Bool) : place removed 0 = 0 := by simp [place]

theorem place_succ_of_gone (h : removed[i]? = some true) :
    place removed (i + 1) = place removed i := by
  simp [place, List.take_add_one, h]

theorem place_succ_of_kept (h : removed[i]? = some false) :
    place removed (i + 1) = place removed i + 1 := by
  simp [place, List.take_add_one, h]

theorem place_of_le (h : removed.length ≤ i) : place removed i = removed.count false := by
  rw [place, List.take_of_length_le h]

/-- From a place to a later one, the new index grows no more than the old one. -/
theorem place_mono (removed : List Bool) (h : i ≤ j) :
    place removed i ≤ place removed j ∧ place removed j + i ≤ place removed i + j := by
  induction j with
  | zero =>
    obtain rfl : i = 0 := by omega
    omega
  | succ j ih =>
    rcases Nat.lt_or_eq_of_le h with hlt | rfl
    · have := ih (by omega)
      cases hj : removed[j]? with
      | none =>
        have hle := List.getElem?_eq_none_iff.mp hj
        rw [place_of_le (i := j + 1) (by omega), ← place_of_le hle]
        omega
      | some gone =>
        cases gone
        · rw [place_succ_of_kept hj]
          omega
        · rw [place_succ_of_gone hj]
          omega
    · omega

theorem place_le (removed : List Bool) (i : Nat) : place removed i ≤ i := by
  have := (place_mono removed (Nat.zero_le i)).2
  rw [place_zero] at this
  omega

theorem place_lt_of_kept (h : removed[i]? = some false) (hlt : i < j) :
    place removed i < place removed j := by
  have hle := (place_mono removed (show i + 1 ≤ j from hlt)).1
  rwa [place_succ_of_kept h] at hle

/-- Past removed instructions the new index is the same. -/
theorem place_eq_of_gone (hle : i ≤ j) (h : ∀ k, i ≤ k → k < j → removed[k]? = some true) :
    place removed j = place removed i := by
  induction j, hle using Nat.le_induction with
  | base => rfl
  | succ j hle ih =>
    rw [place_succ_of_gone (h j hle (Nat.lt_succ_self j)), ih fun k hk hlt => h k hk (by omega)]

/-- Instructions that stay do not come to the same place. -/
theorem eq_of_place_eq (hi : removed[i]? = some false) (hj : removed[j]? = some false)
    (h : place removed i = place removed j) : i = j := by
  rcases Nat.lt_trichotomy i j with hlt | rfl | hlt
  · exact absurd h (place_lt_of_kept hi hlt).ne
  · rfl
  · exact absurd h (place_lt_of_kept hj hlt).ne'

/-- An instruction that stays comes to no place of an instruction behind it, nor to the end. -/
theorem eq_of_place_eq_kept (hi : removed[i]? = some false) (hj : removed[j]? ≠ some true)
    (h : place removed j = place removed i) : j = i := by
  have hlt := (List.getElem?_eq_some_iff.mp hi).1
  cases hmark : removed[j]? with
  | some gone =>
    cases gone with
    | true => exact absurd hmark hj
    | false => exact eq_of_place_eq hmark hi h
  | none =>
    have hle := List.getElem?_eq_none_iff.mp hmark
    exact absurd h (place_lt_of_kept hi (hlt.trans_le hle)).ne'

/-- Each new index belongs to an instruction that stays. -/
theorem exists_kept {m : Nat} (h : j < place removed m) :
    ∃ i, removed[i]? = some false ∧ place removed i = j := by
  induction m with
  | zero => simp [place_zero] at h
  | succ m ih =>
    cases hm : removed[m]? with
    | none =>
      have hle := List.getElem?_eq_none_iff.mp hm
      rw [place_of_le (Nat.le_succ_of_le hle), ← place_of_le hle] at h
      exact ih h
    | some gone =>
      cases gone
      · rw [place_succ_of_kept hm] at h
        rcases Nat.lt_or_eq_of_le (Nat.le_of_lt_succ h) with hlt | rfl
        · exact ih hlt
        · exact ⟨m, hm, rfl⟩
      · rw [place_succ_of_gone hm] at h
        exact ih h

theorem newIndices_getElem? (kept : Nat) (h : i ≤ removed.length) :
    (newIndices kept removed)[i]? = some (kept + place removed i) := by
  induction removed generalizing kept i with
  | nil =>
    obtain rfl : i = 0 := by simpa using h
    rfl
  | cons gone rest ih =>
    cases i with
    | zero => simp [newIndices, place_zero]
    | succ i =>
      rw [newIndices, List.getElem?_cons_succ, ih _ (by simpa using h)]
      cases gone
      · simp [place]
        omega
      · simp [place]

/-! ### The instructions that stay -/

/-- The instruction at `index` of a program of `size` instructions as the removal leaves it. -/
def relocate (removed : List Bool) (size index : Nat) (instruction : Instruction) : Instruction :=
  match instruction.landing? size index with
  | some target => instruction.aim (place removed index) (place removed target)
  | none => instruction

theorem relocate_of_not_jump {size : Nat} (h : instruction.opcode.isJump = false) :
    relocate removed size index instruction = instruction := by
  cases instruction with
  | jump on offset => simp [Instruction.opcode, Opcode.isJump] at h
  | _ => rfl

theorem relocated_eq (hlen : removed.length = program.length) (hi : i ≤ program.length) :
    relocated (newIndices 0 removed).toArray program.length i instruction =
      relocate removed program.length i instruction := by
  have hplace : (newIndices 0 removed).toArray[i]? = some (place removed i) := by
    simpa using newIndices_getElem? 0 (hlen ▸ hi)
  simp only [relocated, relocate, hplace]
  cases ht : instruction.landing? program.length i with
  | none => rfl
  | some target =>
    have htarget : (newIndices 0 removed)[target]? = some (0 + place removed target) :=
      newIndices_getElem? 0 (hlen ▸ Instruction.landing?_le ht)
    simp [Array.getD_eq_getD_getElem?, htarget]

theorem getElem?_filterMap_kept {α β : Type} (f : α → β) (h : removed[i]? = some false)
    (xs : List α) :
    ((xs.zip removed).filterMap fun x => if x.2 then none else some (f x.1))[place removed i]? =
      (xs[i]?).map f := by
  induction xs generalizing removed i with
  | nil => simp
  | cons x xs ih =>
    cases removed with
    | nil => simp at h
    | cons gone removed =>
      cases i with
      | zero =>
        obtain rfl : gone = false := by simpa using h
        simp [place_zero]
      | succ i =>
        have hi : removed[i]? = some false := by simpa using h
        cases gone
        · simpa [place] using ih hi
        · simpa [place] using ih hi

theorem length_filterMap_kept {α β : Type} (f : α → β) {xs : List α}
    (h : removed.length = xs.length) :
    ((xs.zip removed).filterMap fun x => if x.2 then none else some (f x.1)).length =
      removed.count false := by
  induction xs generalizing removed with
  | nil => simp [List.length_eq_zero_iff.mp h]
  | cons x xs ih =>
    cases removed with
    | nil => simp at h
    | cons gone removed =>
      have hlength : removed.length = xs.length := by simpa using h
      have := ih hlength
      cases gone <;> simp [this]

theorem length_remove (hlen : removed.length = program.length) :
    (program.remove removed).length = place removed program.length := by
  rw [place_of_le (by omega), remove]
  exact length_filterMap_kept
    (fun x : Instruction × Nat => relocated _ program.length x.2 x.1) (by simpa using hlen)

/-- An instruction that stays has its new place in the program. -/
theorem remove_getElem? (hlen : removed.length = program.length)
    (h : removed[i]? = some false) :
    (program.remove removed)[place removed i]? =
      (program[i]?).map (relocate removed program.length i) := by
  have hi : i < program.length := hlen ▸ (List.getElem?_eq_some_iff.mp h).1
  have hget := getElem?_filterMap_kept
    (fun x : Instruction × Nat =>
      relocated (newIndices 0 removed).toArray program.length x.2 x.1) h
  rw [remove]
  refine (hget program.zipIdx).trans ?_
  simp only [List.getElem?_zipIdx, List.getElem?_eq_getElem hi, Option.map_some, Nat.zero_add,
    relocated_eq hlen (Nat.le_of_lt hi)]

/-- The marks of the instructions that `gone` holds of. -/
def marks (program : Program) (gone : Instruction → Nat → Bool) : List Bool :=
  program.zipIdx.map fun (instruction, index) => gone instruction index

theorem removeWhere_eq (gone : Instruction → Nat → Bool) :
    program.removeWhere gone = program.remove (program.marks gone) := rfl

theorem length_marks (gone : Instruction → Nat → Bool) :
    (program.marks gone).length = program.length := by
  simp [marks]

theorem marks_getElem? (gone : Instruction → Nat → Bool) (i : Nat) :
    (program.marks gone)[i]? = (program[i]?).map fun instruction => gone instruction i := by
  simp only [marks, List.getElem?_map, List.getElem?_zipIdx, Option.map_map, Nat.zero_add]
  rfl

theorem jumpIndex_escaping {on : Bool} {offset : Int} {size newSize newIndex : Nat}
    (h : (Instruction.jump on offset).landing? size i = none) (hi : newIndex ≤ i)
    (hsize : newSize + i ≤ newIndex + size) :
    Machine.jumpIndex newSize newIndex offset = newSize := by
  have hescapes := Instruction.landing?_jump_eq_none_iff.mp h
  rw [Machine.jumpIndex, if_neg (by omega)]

end Program

/-! ### Runs -/

namespace Machine

open Program

variable {p q : Program} {n : Int64} {removed : List Bool} {s s' : State}
  {holds : State → Prop}

/-- The state in the program after the removal. -/
def State.moved (removed : List Bool) (s : State) : State :=
  { s with index := place removed s.index }

/-- A step as it is after the removal. -/
def Step.moved (removed : List Bool) : Step → Step
  | .next s => .next (s.moved removed)
  | .done v => .done v

theorem State.moved_start (removed : List Bool) (n : Int64) :
    (State.start n).moved removed = .start n := by
  simp [moved, start, place_zero]

/-- A jump that stays goes to the new index of the place where it went before. -/
theorem relocate_jump (on : Bool) (offset : Int) {i : Nat} (hlen : removed.length = p.length)
    (hi : i < p.length) :
    ∃ offset', relocate removed p.length i (.jump on offset) = .jump on offset' ∧
      jumpIndex (p.remove removed).length (place removed i) offset' =
        place removed (jumpIndex p.length i offset) := by
  rw [length_remove hlen, Instruction.jumpIndex_eq on offset]
  cases ht : (Instruction.jump on offset).landing? p.length i with
  | some target =>
    have hle := (place_mono removed (Instruction.landing?_le ht)).1
    refine ⟨_, by rw [relocate, ht]; rfl, ?_⟩
    exact Instruction.jumpIndex_of_landing
      (Instruction.landing?_aim on offset hle)
  | none =>
    refine ⟨offset, by rw [relocate, ht], ?_⟩
    exact jumpIndex_escaping ht (place_le removed i)
      (place_mono removed (Nat.le_of_lt hi)).2

/-- Where an instruction stays, the new program does the same step. -/
theorem step_remove (hlen : removed.length = p.length)
    (h : removed[s.index]? ≠ some true) :
    step (p.remove removed) n (s.moved removed) = (step p n s).moved removed := by
  by_cases hlt : s.index < p.length
  · obtain ⟨instruction, hinst⟩ : ∃ instruction, p[s.index]? = some instruction :=
      ⟨_, List.getElem?_eq_getElem hlt⟩
    have hkept : removed[s.index]? = some false := by
      have hr : removed[s.index]? = some removed[s.index] :=
        List.getElem?_eq_getElem (hlen ▸ hlt)
      rw [hr] at h ⊢
      simpa using h
    have hget := remove_getElem? hlen hkept
    have hsucc := place_succ_of_kept hkept
    rw [hinst, Option.map_some] at hget
    cases instruction with
    | ret v => rw [step_ret hinst, step_ret (s := s.moved removed) hget, Step.moved]
    | test comparison operand =>
      rw [step_test hinst, step_test (s := s.moved removed) hget]
      simp [Step.moved, State.moved, hsucc]
    | load _ | arith _ _ | loadMod _ =>
      rw [relocate_of_not_jump rfl] at hget
      rw [step_alter hinst rfl, step_alter (s := s.moved removed) hget rfl]
      simp [Step.moved, State.moved, hsucc]
    | jump on offset =>
      obtain ⟨offset', hoffset, hindex⟩ := relocate_jump on offset hlen hlt
      rw [step_jump hinst, step_jump (s := s.moved removed) (hget.trans (congrArg some hoffset))]
      simp only [Step.moved, State.moved, hindex]
      split
      · rfl
      · rw [hsucc]
  · have hend : (p.remove removed).length ≤ (s.moved removed).index := by
      rw [length_remove hlen]
      exact (place_mono removed (Nat.le_of_not_lt hlt)).1
    rw [step_end (Nat.le_of_not_lt hlt), step_end hend]
    rfl

/-- A program that arises from `q` by removal follows the runs of `p` if `q` does the same as some
steps of `p` where an instruction stays, and a removed instruction of `p` can be passed over. -/
theorem follows_remove (hlen : removed.length = q.length) (hsize : q.length = p.length)
    (start : holds (.start n))
    (kept : ∀ s, holds s → removed[s.index]? ≠ some true →
      (∃ v, step p n s = .done v ∧ step q n s = .done v) ∨
      ∃ s', TransGen (system p n).Next s s' ∧ holds s' ∧
        (step q n s).moved removed = .next (s'.moved removed))
    (gone : ∀ s, holds s → removed[s.index]? = some true →
      ∃ s', TransGen (system p n).Next s s' ∧ holds s' ∧ s.moved removed = s'.moved removed ∧
        s.index < s'.index) :
    Follows p (q.remove removed) n holds (State.moved removed) where
  start := ⟨start, State.moved_start removed n⟩
  advance s hs := by
    by_cases h : removed[s.index]? = some true
    · obtain ⟨s', hsteps, hs', hmoved, hlt⟩ := gone s hs h
      exact .inr ⟨s', hsteps, hs', .inr ⟨hmoved, hlt⟩⟩
    · have hstep := step_remove (p := q) (n := n) hlen h
      rcases kept s hs h with ⟨v, hp, hq⟩ | ⟨s', hsteps, hs', hq⟩
      · refine .inl ⟨v, hp, by rw [hstep, hq, Step.moved], fun hlt => ?_⟩
        by_contra hle
        rw [length_remove hlen] at hlt
        have := (place_mono removed (show q.length ≤ s.index by omega)).1
        exact absurd hlt (by simpa [State.moved] using this)
      · exact .inr ⟨s', hsteps, hs', .inl (hstep.trans hq)⟩

/-- The case of `follows_remove` where nothing but the removal happens. -/
theorem follows_removeWhere {gone : Instruction → Nat → Bool} (start : holds (.start n))
    (next : ∀ s s', holds s → (system p n).Next s s' →
      (∀ instruction, p[s.index]? = some instruction → gone instruction s.index = false) →
      holds s')
    (pass : ∀ s instruction, holds s → p[s.index]? = some instruction →
      gone instruction s.index = true →
      ∃ s', TransGen (system p n).Next s s' ∧ holds s' ∧ s.index < s'.index ∧
        s'.register = s.register ∧ s'.status = s.status ∧
        ∀ i ∈ Set.Ico s.index s'.index, ∃ instruction, p[i]? = some instruction ∧
          gone instruction i = true) :
    ∃ move, Follows p (p.removeWhere gone) n holds move := by
  rw [removeWhere_eq]
  refine ⟨_, follows_remove (length_marks gone) rfl start (fun s hs h => ?_) fun s hs h => ?_⟩
  · cases hstep : step p n s with
    | done v => exact .inl ⟨v, rfl, rfl⟩
    | next s' =>
      refine .inr ⟨s', .single (next_iff.mpr hstep), next s s' hs (next_iff.mpr hstep) ?_, rfl⟩
      intro instruction hinst
      rw [marks_getElem?, hinst] at h
      simpa using h
  · rw [marks_getElem?] at h
    obtain ⟨instruction, hinst, hgone⟩ := Option.map_eq_some_iff.mp h
    obtain ⟨s', hsteps, hs', hlt, hregister, hstatus, hall⟩ := pass s instruction hs hinst hgone
    refine ⟨s', hsteps, hs', ?_, hlt⟩
    -- None of the instructions that are passed over stays, so the new index is the same.
    have hplace : ∀ k, s.index + k ≤ s'.index →
        place (p.marks gone) (s.index + k) = place (p.marks gone) s.index := by
      intro k
      induction k with
      | zero => exact fun _ => rfl
      | succ k ih =>
        intro hk
        obtain ⟨instruction', hinst', hgone'⟩ := hall (s.index + k) ⟨by omega, by omega⟩
        rw [← Nat.add_assoc, place_succ_of_gone, ih (by omega)]
        rw [marks_getElem?, hinst', Option.map_some, hgone']
    have hindex := hplace (s'.index - s.index) (by omega)
    rw [Nat.add_sub_cancel' (Nat.le_of_lt hlt)] at hindex
    simp [State.moved, hindex, hregister, hstatus]

end Machine

end PluralForms
